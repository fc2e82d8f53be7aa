import Dmi.HuggingFace.RangeLengths
import Dmi.P2PThread.Slices

/-!
# Keys of a Hugging Face step within the attention matrix

A request's keys are `end_token` columns behind its padding: `kv_offset` is the number of padded
columns when the batch began, and every token captured since then has appended a column.  The sum of
the two stays below the number of columns that the cache has kept (`Kept`), and a forward call sees
at least these.

The argument needs that a range counts what lies behind the padding.  With left padding kept in the
ranges (`no_strip_left_pad`) a prefill counts the padded columns twice, in the offset and in the
range.
-/

namespace Dmi.HuggingFace

open HuggingFaceAdapter List
open P2PThread (RequestMeta RequestFits sliceForRequest cutRequest lastRows BatchedShape)

variable {δ κ : Type}

/-! ### The requests of the native context -/

/-- The loop of `push_all_metas` over the requests; `none` stands for an index error. -/
def requestMetas (step : Adapter.Current String Int κ) : Option (List RequestMeta) :=
  step.reqIds.zipIdx.mapM fun (rid, i) => do
    let range ← step.tokenRanges[i]?
    let dim0 ← step.dim0Offsets[i]?
    return {
      reqId := rid
      startToken := range.1
      endToken := range.2
      dim0Offset := dim0
      kvOffset := (step.kvOffsets[i]?).getD 0
      origPosition := (step.origPositions.bind (·[i]?)).getD (-1) }

/-- The slices of a step: every request fits, its slice of an attention matrix is its last query
rows and the keys behind its padding, and no hook's tensor raises. -/
def SlicesFit (ctx : Adapter.StepContext δ String Int κ) : Prop :=
  ∀ (t : Adapter.RingTransport δ String Int κ) (step : Adapter.Current String Int κ),
    (t.setStepContext ctx).current = some step →
    ∃ requests, requestMetas step = some requests ∧ ∀ req ∈ requests,
      RequestFits ctx.batch ctx.kvDim req ∧
      (req.startToken < req.endToken → ∀ heads,
        sliceForRequest (View.full [ctx.batch, heads, ctx.qLen, ctx.kvDim]) req.dim0Offset
            req.startToken req.endToken true req.kvOffset
          = .ok (some ⟨[req.dim0Offset.toNat], [(0, heads),
              lastRows (req.endToken - req.startToken) ctx.qLen,
              (req.kvOffset.toNat, req.endToken.toNat)]⟩)) ∧
      ∀ (hookType : Int) (cfg : Adapter.ModelShapeConfig δ),
        Adapter.computeHookShape hookType cfg ctx.batch ctx.qLen ctx.kvDim ctx.logitsToKeep ≠ [] →
        ∀ (j : Nat) (e : String), cutRequest ctx.flattened hookType (View.full
          (Adapter.computeHookShape hookType cfg ctx.batch ctx.qLen ctx.kvDim ctx.logitsToKeep))
          req j ≠ .error e

/-! ### Forward calls and their cache -/

/-- The columns that the cache has before a call. -/
def cachedColumns (inputs : ModelInputs δ) : Nat :=
  (inputs.pastKeyValues.bind (·.seqLength)).getD 0

/-- A run, with the number of columns that the cache has kept for the batch: all columns of the
calls at which the batch has no offsets yet, and one of every later call. -/
structure CachedRun (δ κ : Type) where
  run : HfRun δ κ
  kept : Nat := 0

/-- The adapter as the call finds it, with a new batch if there is one. -/
def HuggingFaceAdapter.opened (a : HuggingFaceAdapter) (inputs : ModelInputs δ) (ids : InputIds δ) :
    HuggingFaceAdapter :=
  a.resetIfNeeded (isPrefill inputs ids) ids.rows.length

def HuggingFaceAdapter.keptAfter (a : HuggingFaceAdapter) (kept : Nat) (inputs : ModelInputs δ) :
    Nat :=
  match inputs.inputIds with
  | none => kept
  | some ids =>
    if ids.rows = [] then kept
    else if (a.opened inputs ids).prefillKvOffsets.isNone then cachedColumns inputs + ids.qLen
    else kept + 1

def cachedStep (s : CachedRun δ κ) (act : HfAct δ) : Option (CachedRun δ κ) :=
  match act with
  | .forward inputs => some ⟨s.run.call inputs, s.run.adapter.keptAfter s.kept inputs⟩
  | .claimGroup => (hfStep s.run .claimGroup).map fun run => { s with run := run }

/-- What the library says of a forward call: it has columns; a 2-D mask covers cached and new
columns at most; caches know their length, and a static one has room for the call; and the cache is
empty or has kept the columns of the batch. -/
structure ForwardCall (kept : Nat) (inputs : ModelInputs δ) (ids : InputIds δ) : Prop where
  columns : 1 ≤ ids.qLen
  mask : ∀ t, inputs.attentionMask.unwrap = some (some t) →
    ∃ m, t = .two m ∧ m.width ≤ cachedColumns inputs + ids.qLen
  cache : ∀ cache, inputs.pastKeyValues = some cache → cache.seqLength.isSome = true ∧
    ∀ size, cache.maxCacheLen = some size → cachedColumns inputs + ids.qLen ≤ size
  grows : cachedColumns inputs = 0 ∨ kept ≤ cachedColumns inputs

/-- The calls whose keys fit: a prefill strips left padding or has none; a decode call that gives
the batch its offsets attends in every row to as many columns as the row then has tokens; and a call
on an empty cache opens a new batch. -/
structure KeysFit (a : HuggingFaceAdapter) (inputs : ModelInputs δ) (ids : InputIds δ) : Prop where
  prefill : isPrefill inputs ids = true → a.noStripLeftPad = true →
    ∀ m, inputs.attentionMask.unwrap = some (some (.two m)) → ∀ row ∈ m.rows, false ∉ row
  decode : isPrefill inputs ids = false → (a.opened inputs ids).prefillKvOffsets = none →
    ∀ m requests, inputs.attentionMask.unwrap = some (some (.two m)) →
      (a.opened inputs ids).batch = some requests →
      ∀ (i : Nat) (r : BatchRequest) (row : List Bool), requests[i]? = some r →
        m.rows[i]? = some row → r.start + 1 ≤ row.count true
  fresh : cachedColumns inputs = 0 → a.needReset (isPrefill inputs ids) ids.rows.length = true

def ForwardCalls (s : CachedRun δ κ) (act : HfAct δ) : Prop :=
  ∀ inputs ids, act = .forward inputs → inputs.inputIds = some ids → ForwardCall s.kept inputs ids

def KeysFitCalls (s : CachedRun δ κ) (act : HfAct δ) : Prop :=
  ∀ inputs ids, act = .forward inputs → inputs.inputIds = some ids →
    KeysFit s.run.adapter inputs ids

/-! ### Offsets and starts against the columns kept -/

def HuggingFaceAdapter.kvOffsetAt (a : HuggingFaceAdapter) (i : Nat) : Int :=
  ((a.prefillKvOffsets.getD [])[i]?).getD 0

/-- Every request of the batch ends, behind its padding, within the first `n` columns. -/
def Kept (a : HuggingFaceAdapter) (n : Nat) : Prop :=
  ∀ requests, a.batch = some requests → ∀ (i : Nat) (r : BatchRequest), requests[i]? = some r →
    0 ≤ r.start ∧ 0 ≤ a.kvOffsetAt i ∧ a.kvOffsetAt i + r.start ≤ n

theorem Kept.mono {a : HuggingFaceAdapter} {n n' : Nat} (h : Kept a n) (hle : n ≤ n') :
    Kept a n' := by
  intro requests hbatch i r hr
  obtain ⟨hstart, hoffset, hbound⟩ := h requests hbatch i r hr
  exact ⟨hstart, hoffset, by omega⟩

theorem kept_reset (a : HuggingFaceAdapter) (batchSize : Nat) : Kept (a.reset batchSize) 0 := by
  intro requests hbatch i r hr
  cases hbatch
  have hmem := mem_of_getElem? hr
  obtain ⟨id, -, rfl⟩ := mem_map.mp hmem
  exact ⟨le_rfl, le_rfl, le_rfl⟩

section

variable {a : HuggingFaceAdapter} {inputs : ModelInputs δ} {ids : InputIds δ} {kept : Nat}

theorem le_getKvDim (h : ForwardCall kept inputs ids) :
    cachedColumns inputs + ids.qLen ≤ getKvDim inputs.pastKeyValues ids.qLen := by
  have hcache := h.cache
  unfold cachedColumns at hcache ⊢
  unfold getKvDim
  cases hpast : inputs.pastKeyValues with
  | none => simp
  | some cache =>
    rw [hpast] at hcache
    obtain ⟨hlength, hsize⟩ := hcache cache rfl
    obtain ⟨n, hn⟩ := Option.isSome_iff_exists.mp hlength
    dsimp only
    cases hmax : cache.maxCacheLen with
    | some size => exact hsize size hmax
    | none => simp [hn]

/-- What a call finds is within the columns that its cache has. -/
theorem kept_opened (h : Kept a kept) (hcall : ForwardCall kept inputs ids)
    (hfit : KeysFit a inputs ids) :
    ∃ n ≤ cachedColumns inputs, Kept (a.opened inputs ids) n ∧
      ((a.opened inputs ids).prefillKvOffsets ≠ none → n = kept) ∧
      (isPrefill inputs ids = true → n = 0) := by
  unfold opened resetIfNeeded
  split
  · exact ⟨0, Nat.zero_le _, kept_reset a _, fun hne => absurd rfl hne, fun _ => rfl⟩
  next hreset =>
    have hcached : kept ≤ cachedColumns inputs :=
      hcall.grows.resolve_left fun hzero => hreset (hfit.fresh hzero)
    refine ⟨kept, hcached, h, fun _ => rfl, fun hprefill => absurd ?_ hreset⟩
    rw [needReset, hprefill, Bool.true_or]

theorem kvOffsetAt_two (hnone : a.prefillKvOffsets = none) (m : Mask2) (i : Nat) :
    (a.withKvOffsets (some (.two m))).kvOffsetAt i
      = ((m.rows[i]?).map fun row => (m.width : Int) - row.count true).getD 0 := by
  unfold withKvOffsets kvOffsetAt
  rw [hnone]
  simp [kvOffsetsOf]

theorem withKvOffsets_of_some {offsets : List Int} (h : a.prefillKvOffsets = some offsets)
    (mask : Option MaskTensor) : a.withKvOffsets mask = a := by
  unfold withKvOffsets
  rw [h]

variable {i : Nat} {m : Mask2} {row : List Bool}

theorem count_le_width (h : m.rows[i]? = some row) : row.count true ≤ m.width := by
  rw [← m.width_eq row (mem_of_getElem? h)]
  exact count_le_length

variable {tokens : List (BatchRequest × Int)} {requests : List BatchRequest}
  {t : BatchRequest × Int}

theorem tokens_of_mask (h : a.stepTokens true ids (some (.two m)) requests = some tokens)
    (ht : tokens[i]? = some t) :
    ∃ row, m.rows[i]? = some row ∧
      t.2 = if a.noStripLeftPad then (m.width : Int) else row.count true := by
  have hmap : prefillLengths a.noStripLeftPad ids (some (.two m)) = some (m.rows.map fun row =>
      if a.noStripLeftPad then (m.width : Int) else row.count true) := by
    cases a.noStripLeftPad <;> rfl
  obtain ⟨lengths, delta, hlengths, hi, -, hclamp⟩ := stepTokens_prefill h ht
  rw [hmap] at hlengths
  cases hlengths
  rw [getElem?_map, Option.map_eq_some_iff] at hi
  obtain ⟨row, hrow, rfl⟩ := hi
  refine ⟨row, hrow, ?_⟩
  rw [hclamp, if_neg]
  split <;> omega

theorem opened_of_prefill (h : isPrefill inputs ids = true) :
    (a.opened inputs ids).prefillKvOffsets = none := by
  rw [opened, resetIfNeeded, needReset, h, Bool.true_or, if_pos rfl]
  rfl

theorem keptAfter_first (kept : Nat) (hids : inputs.inputIds = some ids) (hne : ids.rows ≠ [])
    (hoffsets : (a.opened inputs ids).prefillKvOffsets = none) :
    a.keptAfter kept inputs = cachedColumns inputs + ids.qLen := by
  unfold keptAfter
  rw [hids]
  dsimp only
  rw [if_neg hne, hoffsets]
  rfl

theorem keptAfter_later (kept : Nat) (hids : inputs.inputIds = some ids) (hne : ids.rows ≠ [])
    {offsets : List Int} (hoffsets : (a.opened inputs ids).prefillKvOffsets = some offsets) :
    a.keptAfter kept inputs = kept + 1 := by
  unfold keptAfter
  rw [hids]
  dsimp only
  rw [if_neg hne, hoffsets]
  rfl

theorem decodeLength_le (r : BatchRequest) : 0 ≤ a.decodeLength r ∧ a.decodeLength r ≤ 1 := by
  unfold decodeLength
  split <;> omega

variable {mask : Option MaskTensor}

theorem start_of_token {prefill : Bool} (hlen : requests.length = ids.rows.length)
    (h : a.stepTokens prefill ids mask requests = some tokens)
    (ht : tokens[i]? = some t) : ∃ r, requests[i]? = some r ∧ r.start = t.1.start := by
  have hstarts := map_stepTokens (·.start) (fun _ _ => rfl) hlen h
  have hi := congrArg (·[i]?) hstarts
  simp only [getElem?_map, ht, Option.map_some] at hi
  obtain ⟨r, hr, hstart⟩ := Option.map_eq_some_iff.mp hi.symm
  exact ⟨r, hr, hstart⟩

theorem count_of_unpadded (h : m.rows[i]? = some row)
    (hrow : false ∉ row) : row.count true = m.width := by
  rw [← m.width_eq row (mem_of_getElem? h), count_eq_length]
  intro b hb
  cases b with
  | true => rfl
  | false => exact absurd hb hrow

theorem token_le_of_first {n : Nat} (hopened : Kept (a.opened inputs ids) n)
    (hn : n ≤ cachedColumns inputs) (hprefilled : isPrefill inputs ids = true → n = 0)
    (hcall : ForwardCall kept inputs ids) (hfit : KeysFit a inputs ids)
    (hmask : inputs.attentionMask.unwrap = some mask)
    (hbatch : (a.opened inputs ids).batch = some requests)
    (htokens : ((a.opened inputs ids).withKvOffsets mask).stepTokens (isPrefill inputs ids) ids mask
      requests = some tokens)
    (hoffsets : (a.opened inputs ids).prefillKvOffsets = none) {r : BatchRequest}
    (ht : tokens[i]? = some t) (hr : requests[i]? = some r) :
    0 ≤ t.2 ∧ 0 ≤ ((a.opened inputs ids).withKvOffsets mask).kvOffsetAt i ∧
      ((a.opened inputs ids).withKvOffsets mask).kvOffsetAt i + r.start + t.2
        ≤ (cachedColumns inputs + ids.qLen : Nat) := by
  obtain ⟨hr0, -, hbound⟩ := hopened requests hbatch i r hr
  have hzero : (a.opened inputs ids).kvOffsetAt i = 0 := by
    rw [kvOffsetAt, hoffsets]
    rfl
  have hq := hcall.columns
  cases hprefill : isPrefill inputs ids with
  | true =>
    rw [hprefill] at htokens
    have hn0 := hprefilled hprefill
    cases mask with
    | none =>
      obtain ⟨lengths, delta, hlengths, -⟩ := stepTokens_prefill htokens ht
      cases hlengths
    | some tensor =>
      obtain ⟨m, rfl, hwidth⟩ := hcall.mask tensor hmask
      obtain ⟨row, hrow, hdelta⟩ := tokens_of_mask htokens ht
      have hcount := count_le_width hrow
      have hflag : ((a.opened inputs ids).withKvOffsets (some (.two m))).noStripLeftPad
          = a.noStripLeftPad := noStripLeftPad_step _ _
      rw [kvOffsetAt_two hoffsets, hrow, Option.map_some, Option.getD_some, hdelta, hflag]
      cases hstrip : a.noStripLeftPad with
      | false =>
        rw [if_neg Bool.false_ne_true]
        omega
      | true =>
        have hfull := count_of_unpadded hrow
          (hfit.prefill hprefill hstrip m hmask row (mem_of_getElem? hrow))
        omega
  | false =>
    rw [hprefill] at htokens
    obtain ⟨-, hdelta⟩ := tokens_of_decode htokens ht
    have hone := decodeLength_le (a := (a.opened inputs ids).withKvOffsets mask) t.1
    cases mask with
    | none =>
      have hsame : (a.opened inputs ids).withKvOffsets none = a.opened inputs ids := by
        unfold withKvOffsets
        rw [hoffsets]
      rw [hsame, hzero]
      omega
    | some tensor =>
      obtain ⟨m, rfl, hwidth⟩ := hcall.mask tensor hmask
      rw [kvOffsetAt_two hoffsets]
      cases hrow : m.rows[i]? with
      | none =>
        rw [Option.map_none, Option.getD_none]
        omega
      | some row =>
        have hcount := count_le_width hrow
        have hattended := hfit.decode hprefill hoffsets m requests hmask hbatch i r row hr hrow
        rw [Option.map_some, Option.getD_some]
        omega

section

variable (h : Kept a kept) (hcall : ForwardCall kept inputs ids) (hfit : KeysFit a inputs ids)
  (hids : inputs.inputIds = some ids) (hne : ids.rows ≠ [])
  (hmask : inputs.attentionMask.unwrap = some mask)
  (hbatch : (a.opened inputs ids).batch = some requests)
  (htokens : ((a.opened inputs ids).withKvOffsets mask).stepTokens (isPrefill inputs ids) ids mask
    requests = some tokens)
include h hcall hfit hids hne hmask hbatch htokens

/-- **Every range of a call ends, behind the padding of its row, within the columns kept.** -/
theorem tokens_kept (ht : tokens[i]? = some t) :
    0 ≤ t.1.start ∧ 0 ≤ t.2 ∧ 0 ≤ ((a.opened inputs ids).withKvOffsets mask).kvOffsetAt i ∧
      ((a.opened inputs ids).withKvOffsets mask).kvOffsetAt i + t.1.start + t.2
        ≤ a.keptAfter kept inputs := by
  obtain ⟨n, hn, hopened, hsame, hprefilled⟩ := kept_opened h hcall hfit
  obtain ⟨r, hr, hstart⟩ := start_of_token (length_of_resetIfNeeded hbatch) htokens ht
  obtain ⟨hr0, hoffset0, hbound⟩ := hopened requests hbatch i r hr
  rw [hstart] at hr0 hbound
  cases hoffsets : (a.opened inputs ids).prefillKvOffsets with
  | some offsets =>
    -- the offsets are there, so the call continues its batch by at most one token
    have hkept := keptAfter_later kept hids hne hoffsets
    have hdecode : isPrefill inputs ids = false := by
      by_contra hprefill
      rw [Bool.not_eq_false] at hprefill
      rw [opened_of_prefill hprefill] at hoffsets
      cases hoffsets
    rw [hdecode] at htokens
    obtain ⟨-, hdelta⟩ := tokens_of_decode htokens ht
    have hone := decodeLength_le (a := (a.opened inputs ids).withKvOffsets mask) t.1
    have hnk : n = kept := hsame (by rw [hoffsets]; exact Option.some_ne_none _)
    rw [withKvOffsets_of_some hoffsets] at hdelta hone ⊢
    rw [hkept, hdelta]
    exact ⟨hr0, hone.1, hoffset0, by omega⟩
  | none =>
    rw [keptAfter_first kept hids hne hoffsets]
    have hfirst := token_le_of_first hopened hn hprefilled hcall hfit hmask hbatch htokens hoffsets
      ht hr
    rw [hstart] at hfirst
    exact ⟨hr0, hfirst⟩

/-- An accepted call leaves its batch within the columns kept. -/
theorem kept_accepted :
    Kept (((a.opened inputs ids).withKvOffsets mask).advanced tokens)
      (a.keptAfter kept inputs) := by
  intro requests' hbatch' i r' hr'
  cases hbatch'
  rw [getElem?_map, Option.map_eq_some_iff] at hr'
  obtain ⟨t, ht, rfl⟩ := hr'
  obtain ⟨hstart, hdelta, hoffset, hbound⟩ :=
    tokens_kept h hcall hfit hids hne hmask hbatch htokens ht
  refine ⟨?_, hoffset, ?_⟩
  · simp only [BatchRequest.advance]
    omega
  · have hsame : (((a.opened inputs ids).withKvOffsets mask).advanced tokens).kvOffsetAt i
        = ((a.opened inputs ids).withKvOffsets mask).kvOffsetAt i := rfl
    simp only [BatchRequest.advance]
    omega

end

theorem kept_refused (h : Kept a kept) (hcall : ForwardCall kept inputs ids)
    (hfit : KeysFit a inputs ids) (hids : inputs.inputIds = some ids) (hne : ids.rows ≠ [])
    (hprefill : isPrefill inputs ids = true) (hmask : inputs.attentionMask.unwrap = some mask) :
    Kept ((a.opened inputs ids).withKvOffsets mask) (a.keptAfter kept inputs) := by
  obtain ⟨n, hn, hopened, hsame, hprefilled⟩ := kept_opened h hcall hfit
  have hoffsets := opened_of_prefill (a := a) hprefill
  have hn0 := hprefilled hprefill
  rw [keptAfter_first kept hids hne hoffsets]
  cases mask with
  | none =>
    have hnone : (a.opened inputs ids).withKvOffsets none = a.opened inputs ids := by
      unfold withKvOffsets
      rw [hoffsets]
    rw [hnone]
    exact hopened.mono (by omega)
  | some tensor =>
    obtain ⟨m, rfl, hwidth⟩ := hcall.mask tensor hmask
    intro requests hbatch i r hr
    rw [batch_withKvOffsets] at hbatch
    obtain ⟨hr0, hoffset0, hbound⟩ := hopened requests hbatch i r hr
    rw [kvOffsetAt_two hoffsets]
    cases hrow : m.rows[i]? with
    | none =>
      rw [Option.map_none, Option.getD_none]
      omega
    | some row =>
      have hcount := count_le_width hrow
      rw [Option.map_some, Option.getD_some]
      omega

/-- **The step lemma**: whatever a call does, the batch stays within the columns kept. -/
theorem kept_call (h : Kept a kept) {a' : HuggingFaceAdapter} {out : Option (BuiltStep δ κ)}
    (hbuild : a.buildStepContext inputs = (a', out))
    (hcall : ∀ ids, inputs.inputIds = some ids → ForwardCall kept inputs ids)
    (hfit : ∀ ids, inputs.inputIds = some ids → KeysFit a inputs ids) :
    Kept a' (a.keptAfter kept inputs) := by
  cases out with
  | some b =>
    obtain ⟨ids, mask, requests, tokens, hids, hne, hmask, hbatch, htokens, rfl, rfl⟩ :=
      buildStepContext_some hbuild
    exact kept_accepted h (hcall ids hids) (hfit ids hids) hids hne hmask hbatch htokens
  | none =>
    rcases buildStepContext_none hbuild with
      ⟨rfl, hskip⟩ | ⟨ids, hids, hne, rfl | ⟨hprefill, mask, hmask, rfl⟩⟩
    · have hkept : a'.keptAfter kept inputs = kept := by
        unfold keptAfter
        split
        · rfl
        · rename_i ids hids
          rw [if_pos (hskip ids hids)]
      rw [hkept]
      exact h
    · obtain ⟨n, hn, hopened, hsame, -⟩ := kept_opened h (hcall ids hids) (hfit ids hids)
      refine hopened.mono ?_
      cases hoffsets : (a.opened inputs ids).prefillKvOffsets with
      | none =>
        rw [keptAfter_first kept hids hne hoffsets]
        omega
      | some offsets =>
        have hnk := hsame (by rw [hoffsets]; exact Option.some_ne_none _)
        rw [keptAfter_later kept hids hne hoffsets]
        omega
    · exact kept_refused h (hcall ids hids) (hfit ids hids) hids hne hprefill hmask

/-- A call sees the columns that are kept after it. -/
theorem keptAfter_le_getKvDim (h : Kept a kept) (hcall : ForwardCall kept inputs ids)
    (hfit : KeysFit a inputs ids) (hids : inputs.inputIds = some ids) (hne : ids.rows ≠ []) :
    a.keptAfter kept inputs ≤ getKvDim inputs.pastKeyValues ids.qLen := by
  refine le_trans ?_ (le_getKvDim hcall)
  have hq := hcall.columns
  obtain ⟨n, hn, -, hsame, -⟩ := kept_opened h hcall hfit
  cases hoffsets : (a.opened inputs ids).prefillKvOffsets with
  | none => rw [keptAfter_first kept hids hne hoffsets]
  | some offsets =>
    have hnk := hsame (by rw [hoffsets]; exact Option.some_ne_none _)
    rw [keptAfter_later kept hids hne hoffsets]
    omega

theorem kvOffset_contextOf (tokens : List (BatchRequest × Int)) (i : Nat) :
    (((a.contextOf inputs ids tokens : BuiltStep δ κ).context.kvOffsets)[i]?).getD 0
      = a.kvOffsetAt i := by
  unfold contextOf kvOffsetAt
  cases a.prefillKvOffsets with
  | some offsets => rfl
  | none =>
    rw [Option.getD_none, Option.getD_none, getElem?_replicate]
    split <;> rfl

theorem requestMetas_contextOf (hlen : tokens.length = ids.rows.length)
    (t : Adapter.RingTransport δ String Int κ) {step : Adapter.Current String Int κ}
    (hstep : (t.setStepContext (a.contextOf inputs ids tokens).context).current = some step) :
    requestMetas step = some (tokens.zipIdx.map fun x =>
      ⟨x.1.1.requestId, x.1.1.start, x.1.1.start + x.1.2, x.2, a.kvOffsetAt x.2, -1⟩) := by
  cases hstep
  unfold requestMetas
  rw [mapM_eq_some]
  have hids : (a.contextOf inputs ids tokens : BuiltStep δ κ).context.reqIds.zipIdx
      = tokens.zipIdx.map (Prod.map (fun t => t.1.requestId) id) := zipIdx_map
  rw [hids, forall₂_map_left_iff, forall₂_map_right_iff, forall₂_same]
  intro x hx
  have hget : tokens[x.2]? = some x.1 := mem_zipIdx_iff_getElem?.mp hx
  have hlt : x.2 < ids.rows.length := hlen ▸ (List.getElem?_eq_some_iff.mp hget).1
  have hrange : (a.contextOf inputs ids tokens : BuiltStep δ κ).context.tokenRanges[x.2]?
      = some (x.1.1.start, x.1.1.start + x.1.2) := by
    simp [contextOf, hget, BatchRequest.range]
  have hdim0 : (a.contextOf inputs ids tokens : BuiltStep δ κ).context.dim0Offsets[x.2]?
      = some (x.2 : Int) := by
    simp [contextOf, hlt]
  simp only [Prod.map_fst, Prod.map_snd, id_eq, hrange, hdim0, kvOffset_contextOf]
  rfl

/-- **The slices of an accepted call.** -/
theorem slicesFit_call (h : Kept a kept) {a' : HuggingFaceAdapter} {b : BuiltStep δ κ}
    (hbuild : a.buildStepContext inputs = (a', some b))
    (hcall : ∀ ids, inputs.inputIds = some ids → ForwardCall kept inputs ids)
    (hfit : ∀ ids, inputs.inputIds = some ids → KeysFit a inputs ids) : SlicesFit b.context := by
  obtain ⟨ids, mask, requests, tokens, hids, hne, hmask, hbatch, htokens, rfl, rfl⟩ :=
    buildStepContext_some hbuild
  have hlen : tokens.length = ids.rows.length := by
    have hmap := map_stepTokens (fun _ => ()) (fun _ _ => rfl) (length_of_resetIfNeeded hbatch)
      htokens
    have hlength := congrArg List.length hmap
    rwa [length_map, length_map, length_of_resetIfNeeded hbatch] at hlength
  intro t step hstep
  refine ⟨_, requestMetas_contextOf hlen t hstep, ?_⟩
  intro req hreq
  obtain ⟨x, hx, rfl⟩ := mem_map.mp hreq
  have hget : tokens[x.2]? = some x.1 := mem_zipIdx_iff_getElem?.mp hx
  have hlt : x.2 < ids.rows.length := hlen ▸ (List.getElem?_eq_some_iff.mp hget).1
  obtain ⟨hstart, hdelta, hoffset, hbound⟩ := tokens_kept h (hcall ids hids) (hfit ids hids) hids
    hne hmask hbatch htokens hget
  have hkeys := keptAfter_le_getKvDim h (hcall ids hids) (hfit ids hids) hids hne
  have hfits : RequestFits ids.rows.length (getKvDim inputs.pastKeyValues ids.qLen)
      ⟨x.1.1.requestId, x.1.1.start, x.1.1.start + x.1.2, x.2,
        ((a.opened inputs ids).withKvOffsets mask).kvOffsetAt x.2, -1⟩ := by
    intro _
    dsimp only
    omega
  refine ⟨hfits, ?_, ?_⟩
  · intro htokens heads
    obtain ⟨⟨hi, hbatch⟩, hend, hkv, hle⟩ := hfits htokens
    exact P2PThread.sliceForRequest_attn hi hbatch htokens hend hkv hle
  · intro hookType cfg hshape j e
    have hpos : 0 < ids.rows.length := length_pos_of_ne_nil hne
    exact P2PThread.cutRequest_ne_error
      (P2PThread.batchedShape_computeHookShape hookType cfg _ _ _ hpos) hshape hfits j e

end

/-! ### Whole runs -/

/-- The batch is within the columns kept, and the slices of every accepted call fit. -/
structure SlicesInv (s : CachedRun δ κ) : Prop where
  kept : Kept s.run.adapter s.kept
  slices : ∀ f ∈ s.run.forwards, SlicesFit f.step.context

theorem slicesInv_step {s s' : CachedRun δ κ} {act : HfAct δ} (h : SlicesInv s)
    (hok : ForwardCalls s act ∧ KeysFitCalls s act) (hstep : cachedStep s act = some s') :
    SlicesInv s' := by
  cases act with
  | claimGroup =>
    cases hstep
    exact ⟨h.kept, h.slices⟩
  | forward inputs =>
    cases hstep
    have hcall := fun ids => hok.1 inputs ids rfl
    have hfit := fun ids => hok.2 inputs ids rfl
    cases hbuild : s.run.adapter.buildStepContext (κ := κ) inputs with
    | mk a' out =>
      have hkept := kept_call h.kept hbuild hcall hfit
      cases out with
      | none =>
        have hrun : s.run.call inputs = { s.run with adapter := a' } := by
          unfold HfRun.call
          rw [hbuild]
        refine ⟨?_, ?_⟩
        · rw [hrun]
          exact hkept
        · rw [hrun]
          exact h.slices
      | some b =>
        have hrun : s.run.call inputs
            = ⟨a', s.run.forwards ++ [⟨s.run.adapter, inputs, a', b⟩]⟩ := by
          unfold HfRun.call
          rw [hbuild]
        refine ⟨?_, ?_⟩
        · rw [hrun]
          exact hkept
        · rw [hrun]
          intro f hf
          rcases mem_append.mp hf with hf | hf
          · exact h.slices f hf
          · cases mem_singleton.mp hf
            exact slicesFit_call h.kept hbuild hcall hfit

/-- An adapter with an end token, before its first call. -/
def paddedInit : CachedRun Unit Unit := ⟨⟨{ modelId := "model", eosTokenIds := [9] }, []⟩, 0⟩

theorem paddedMask_width : ∀ row ∈ [[true, true, true], [false, true, true]], row.length = 3 := by
  decide

/-- A prompt of three columns in two rows, the second one padded on the left by one column. -/
def paddedPrompt : ModelInputs Unit where
  inputIds := some ⟨none, some 3, [[5, 6, 7], [0, 8, 9]], by decide⟩
  attentionMask := .tensor (.two ⟨3, [[true, true, true], [false, true, true]], paddedMask_width⟩)
  pastKeyValues := none
  cachePosition := none

end Dmi.HuggingFace
