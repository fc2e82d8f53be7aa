import Dmi.Lib.Lts
import Dmi.Lib.View
import Mathlib.Algebra.Group.Nat.Defs

/-!
# Deliveries to the consumer

The worker takes the drained tensors in order.  Each one meets the next metadata entry; the context
of its step is taken from a queue of its own when the first tensor of a step comes, and given up
with the entry that is the last of its step.  With them the tensor is cut into the requests' slices
and delivered, either to a consumer of slices or to one of batches.

Tensors are their geometry: a delivered tensor is a view into the captured one.  An exception of
the consumer is counted; one that escapes `do_post_processing` ends the worker.
-/

namespace Dmi.P2PThread

/-! ### Catalog -/

/-- What the worker reads of a hook definition: its name, whether it is sharded over the tensor
parallel ranks, and whether it is an attention matrix. -/
structure HookDef where
  id : Int
  actName : String
  tpSharded : Bool
  isAttn : Bool
deriving DecidableEq, Repr

def hookDefs : List HookDef :=
  [⟨0, "hook_resid_pre", false, false⟩, ⟨1, "hook_ln1", false, false⟩,
    ⟨2, "hook_attn_out", false, false⟩, ⟨3, "hook_resid_mid", false, false⟩,
    ⟨4, "attn.hook_attn_scores", true, true⟩, ⟨5, "attn.hook_pattern", true, true⟩,
    ⟨6, "attn.hook_q", true, false⟩, ⟨7, "attn.hook_k", true, false⟩,
    ⟨8, "attn.hook_v", true, false⟩, ⟨9, "attn.hook_z", true, false⟩,
    ⟨11, "hook_ln2", false, false⟩, ⟨12, "hook_mlp_in", false, false⟩,
    ⟨13, "hook_mlp_out", false, false⟩, ⟨20, "hook_mlp_post", true, false⟩,
    ⟨14, "hook_resid_final", false, false⟩, ⟨15, "hook_embed", false, false⟩,
    ⟨16, "hook_pos_embed", false, false⟩, ⟨17, "hook_final_ln", false, false⟩,
    ⟨18, "token_ids", false, false⟩, ⟨19, "final_logits", false, false⟩,
    ⟨21, "mlp.hook_router_logits", false, false⟩, ⟨22, "mlp.hook_topk_ids", false, false⟩,
    ⟨23, "mlp.hook_topk_weights", false, false⟩, ⟨24, "hook_resid_pre_head", false, false⟩,
    ⟨25, "hook_final_ln_head", false, false⟩]

def hookDef? (hookType : Int) : Option HookDef := hookDefs.find? fun d => d.id = hookType

def hookTypeName (hookType : Int) : String := ((hookDef? hookType).map (·.actName)).getD "unknown"

def isTpSharded (hookType : Int) : Bool := (hookDef? hookType).any (·.tpSharded)

def isAttnWeightMatrix (hookType : Int) : Bool := (hookDef? hookType).any (·.isAttn)

def hookTypeFinalLogits : Int := 19

/-! ### Metadata -/

structure RequestMeta where
  reqId : String
  startToken : Int
  endToken : Int
  dim0Offset : Int
  kvOffset : Int := 0
  origPosition : Int := -1
deriving DecidableEq, Repr

/-- The context that the tensors of a step share. -/
structure StepContext (κ : Type) where
  captureLease : κ
  modelId : String
  tpRank : Int := 0
  requests : List RequestMeta
  flattened : Bool := false
deriving DecidableEq

structure TensorMeta where
  hookType : Int
  layerNo : Int := -1
  shape : List Nat
  dtype : Nat
  lastInStep : Bool := false
  flags : Nat := 0
  requests : Option (List RequestMeta) := none
deriving DecidableEq

/-- What the worker reads of a drained task; its bytes are copied unchanged. -/
structure DrainTask where
  tensorTotalBytes : Nat
  captureTsUs : Int
deriving DecidableEq

/-- The configuration: which consumers there are, and whether packed steps go out whole. -/
structure P2PConfig where
  hasSubmitFn : Bool
  hasBatchSink : Bool
  batchSubmit : Bool
deriving DecidableEq

/-- What the consumer is called with. -/
inductive Target where
  | submit (reqId : String) (startToken endToken : Int)
  | batch (stepSeq : Nat) (lastInStep : Bool) (reqIds : List String)
      (segments : List (Int × Int × Int × Int)) (isAttn : Bool)
deriving DecidableEq

structure Delivery (κ : Type) where
  modelId : String
  shardRank : Int
  actName : String
  layerNo : Int
  tensor : View
  captureLease : κ
  captureTsUs : Int
  target : Target
deriving DecidableEq

variable {κ : Type}

def makeActName (hookType layerNo : Int) : String :=
  if 0 ≤ layerNo then "blocks." ++ hookTypeName hookType else hookTypeName hookType

def resolveShardRank (hookType : Int) (ctx : StepContext κ) : Int :=
  if isTpSharded hookType then ctx.tpRank else 0

/-! ### Slices -/

/-- A request's part of a batched tensor; none for a request without tokens. -/
def sliceForRequest (tensor : View) (batchIdx startToken endToken : Int) (isAttn : Bool)
    (kvOffset : Int) : Except String (Option View) :=
  if endToken ≤ startToken then .ok none
  else do
    let eff := endToken - startToken
    let s ← tensor.select batchIdx
    let tokenDim := if isAttn ∧ 2 ≤ s.dim then s.dim - 2 else 0
    -- the last rows, where there are more than the request has tokens
    let s ←
      match s.size? tokenDim with
      | some delta => if eff < delta then s.narrow tokenDim (delta - eff) eff else .ok s
      | none => .ok s
    if isAttn ∧ 2 ≤ s.dim then
      let keyDim := s.dim - 1
      match s.size? keyDim with
      | some size =>
        if 0 ≤ endToken ∧ endToken ≤ size then
          let s ← s.narrow keyDim kvOffset endToken
          return some s
        else return some s
      | none => return some s
    else return some s

/-- A request's part of a packed tensor. -/
def sliceFlattened (tensor : View) (dim0Offset startToken endToken : Int) :
    Except String (Option View) :=
  let numTokens := endToken - startToken
  if numTokens ≤ 0 then .ok none
  else
    match tensor.size? 0 with
    | none => .error "dimension out of range"
    | some size =>
      if (size : Int) < dim0Offset + numTokens then .ok none
      else (tensor.narrow 0 dim0Offset numTokens).map some

/-- A slice with the token range that it is stored under. -/
structure Slice where
  req : RequestMeta
  dbStart : Int
  dbEnd : Int
  tensor : View
deriving DecidableEq

/-- What the loop over the requests does with one of them. -/
inductive Cut where
  | stop
  | skip
  | slice (s : Slice)
  | error (e : String)
deriving DecidableEq

/-- The slice of the request at position `j` of its list. -/
def cutRequest (flattened : Bool) (hookType : Int) (tensor : View) (req : RequestMeta) (j : Nat) :
    Cut :=
  let isAttn := isAttnWeightMatrix hookType
  -- final logits: the token range covers the last positions that have logits
  let finish : Except String (Option View) → Cut
    | .error e => .error e
    | .ok none => .skip
    | .ok (some s) =>
      if hookType = hookTypeFinalLogits then
        match s.size? 0 with
        | some count => .slice ⟨req, req.endToken - count, req.endToken, s⟩
        | none => .error "dimension out of range"
      else .slice ⟨req, req.startToken, req.endToken, s⟩
  if flattened then
    if isAttn then .skip
    else if hookType = hookTypeFinalLogits then
      let row : Int := if 0 ≤ req.origPosition then req.origPosition else j
      finish (sliceFlattened tensor row 0 1)
    else finish (sliceFlattened tensor req.dim0Offset req.startToken req.endToken)
  else
    match tensor.size? 0 with
    | none => .error "dimension out of range"
    | some size =>
      if (size : Int) ≤ req.dim0Offset then .stop
      else
        finish (sliceForRequest tensor req.dim0Offset req.startToken req.endToken isAttn
          req.kvOffset)

/-- The loop over the requests: the slices that it cut, and the exception that ended it. -/
def cutRequests (flattened : Bool) (hookType : Int) (tensor : View) :
    List (RequestMeta × Nat) → List Slice × Option String
  | [] => ([], none)
  | (req, j) :: rest =>
    match cutRequest flattened hookType tensor req j with
    | .stop => ([], none)
    | .skip => cutRequests flattened hookType tensor rest
    | .error e => ([], some e)
    | .slice s =>
      let (slices, e) := cutRequests flattened hookType tensor rest
      (s :: slices, e)

/-- The rows of the segments table of a whole batch. -/
def segmentRows (hookType : Int) (size : Nat) (requests : List RequestMeta) :
    List (String × Int × Int × Int × Int) :=
  requests.zipIdx.filterMap fun (req, j) =>
    if hookType = hookTypeFinalLogits then
      let dim0 : Int := if 0 ≤ req.origPosition then req.origPosition else j
      if dim0 < 0 ∨ (size : Int) < dim0 + 1 ∨ req.endToken ≤ 0 then none
      else some (req.reqId, dim0, req.endToken - 1, req.endToken, req.origPosition)
    else
      let numTokens := req.endToken - req.startToken
      if numTokens ≤ 0 ∨ req.dim0Offset < 0 ∨ (size : Int) < req.dim0Offset + numTokens then none
      else some (req.reqId, req.dim0Offset, req.startToken, req.endToken, req.origPosition)

/-! ### The worker -/

variable (cfg : P2PConfig) (elementSize : Nat → Nat)

/-- The shape under which the tensor is read: a hook whose row count may differ gets its first
dimension from the bytes that were published. -/
def actualShape (md : TensorMeta) (total : Nat) : List Nat :=
  if md.shape.prod * elementSize md.dtype ≠ total ∧ md.flags % 2 = 1 ∧ 2 ≤ md.shape.length then
    let innerBytes := md.shape.tail.prod * elementSize md.dtype
    if 0 < innerBytes ∧ total % innerBytes = 0 then total / innerBytes :: md.shape.tail
    else md.shape
  else md.shape

/-- The delivery of a whole packed batch; none without rows. -/
def batchDelivery (ctx : StepContext κ) (stepSeq : Nat) (md : TensorMeta) (task : DrainTask)
    (shape : List Nat) (requests : List RequestMeta) : List (Delivery κ) :=
  let rows := segmentRows md.hookType (shape.headD 0) requests
  if rows = [] then []
  else
    [⟨ctx.modelId, resolveShardRank md.hookType ctx, makeActName md.hookType md.layerNo, md.layerNo,
      View.full shape, ctx.captureLease, task.captureTsUs,
      .batch stepSeq md.lastInStep (rows.map Prod.fst) (rows.map Prod.snd) false⟩]

/-- The delivery of one slice. -/
def sliceDelivery (ctx : StepContext κ) (stepSeq : Nat) (md : TensorMeta) (task : DrainTask)
    (s : Slice) (lastItem : Bool) : Delivery κ :=
  ⟨ctx.modelId, resolveShardRank md.hookType ctx, makeActName md.hookType md.layerNo, md.layerNo,
    s.tensor, ctx.captureLease, task.captureTsUs,
    if cfg.hasSubmitFn then .submit s.req.reqId s.dbStart s.dbEnd
    else .batch stepSeq lastItem [s.req.reqId] [(0, s.dbStart, s.dbEnd, s.req.origPosition)]
      (isAttnWeightMatrix md.hookType)⟩

/-- The deliveries of the slices.  For a consumer of batches one slice is held back, so that the
last one can carry the end of the step; it is not delivered if the loop ends by an exception. -/
def sliceDeliveries (ctx : StepContext κ) (stepSeq : Nat) (md : TensorMeta) (task : DrainTask) :
    List Slice × Option String → List (Delivery κ)
  | (slices, e) =>
    if cfg.hasSubmitFn then slices.map fun s => sliceDelivery cfg ctx stepSeq md task s false
    else
      slices.dropLast.map (fun s => sliceDelivery cfg ctx stepSeq md task s false) ++
        match e with
        | none =>
          slices.getLast?.toList.map fun s => sliceDelivery cfg ctx stepSeq md task s md.lastInStep
        | some _ => []

/-- The two queues, and what the worker keeps from one tensor to the next. -/
structure P2P (κ : Type) where
  metas : List TensorMeta := []
  contexts : List (StepContext κ) := []
  currentCtx : Option (StepContext κ) := none
  stepSeq : Nat := 0
  submitExceptions : Nat := 0
  stopped : Bool := false
deriving DecidableEq

namespace P2P

variable (s : P2P κ)

/-- `push_step`. -/
def pushStep (ctx : StepContext κ) (metas : List TensorMeta) : P2P κ :=
  { s with contexts := s.contexts ++ [ctx], metas := s.metas ++ metas }

/-- The context of the step that the next tensor belongs to. -/
def acquire : Option (StepContext κ × P2P κ) :=
  match s.currentCtx with
  | some ctx => some (ctx, s)
  | none =>
    match s.contexts with
    | [] => none
    | ctx :: rest =>
      some (ctx, { s with
        contexts := rest, currentCtx := some ctx, stepSeq := s.stepSeq + 1 })

/-- The end of a step gives its context up. -/
def retire (md : TensorMeta) : P2P κ :=
  if md.lastInStep then { s with currentCtx := none } else s

/-- The consumer throws at some of the deliveries. -/
def consume (throws : Delivery κ → Bool) (deliveries : List (Delivery κ)) : P2P κ :=
  { s with submitExceptions := s.submitExceptions + deliveries.countP throws }

/-- `do_post_processing`, with the deliveries that it made. -/
def doPostProcessing (task : DrainTask) (throws : Delivery κ → Bool) :
    P2P κ × List (Delivery κ) :=
  match s.metas with
  | [] => (s, [])
  | md :: metas =>
    let s := { s with metas := metas }
    match s.acquire with
    | none => (s, [])
    | some (ctx, s) =>
      if md.shape = [] ∨ task.tensorTotalBytes = 0 then (s.retire md, [])
      else if !cfg.hasSubmitFn && !cfg.hasBatchSink then (s.retire md, [])
      else
        let shape := actualShape elementSize md task.tensorTotalBytes
        if shape.prod * elementSize md.dtype ≠ task.tensorTotalBytes then (s.retire md, [])
        else
          let requests := md.requests.getD ctx.requests
          if cfg.batchSubmit && cfg.hasBatchSink && ctx.flattened &&
              !isAttnWeightMatrix md.hookType then
            let deliveries := batchDelivery ctx s.stepSeq md task shape requests
            ((s.consume throws deliveries).retire md, deliveries)
          else
            let cut := cutRequests ctx.flattened md.hookType (View.full shape) requests.zipIdx
            let deliveries := sliceDeliveries cfg ctx s.stepSeq md task cut
            match cut.2 with
            | none => ((s.consume throws deliveries).retire md, deliveries)
            | some _ => ({ s.consume throws deliveries with stopped := true }, deliveries)

end P2P

end Dmi.P2PThread
