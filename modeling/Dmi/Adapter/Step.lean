import Dmi.Adapter.Specs
import Dmi.Capture.Metadata
import Dmi.Lib.Dict
import Dmi.Rows.Plan
import Mathlib.Algebra.Order.BigOperators.Group.List

/-! # The plan of a step and the metadata it publishes

Before a forward pass the adapter reserves ring space for the tensors that the hooks will write
(`plan_step`), and the transport publishes one metadata entry per tensor (`pre_push_all_metas`).
Two loops walk over the specs of the step, one for the sizes and one for the entries. They agree on
the specs, on the shapes and on every element type but one: token ids without an element type of
their own are published in the type that the step gives and reserved in the type of the model.
-/

namespace Dmi.Adapter

open List

variable {δ ρ π κ : Type}

/-! ### State -/

/-- A request-row plan of a hook publishes a number of rows. -/
abbrev RowPlan (ρ π : Type) := { rows : Rows.HookRows ρ π // 0 ≤ rows.rowCount }

structure StepContext (δ ρ π κ : Type) where
  modelId : String
  flattened : Bool
  reqIds : List ρ
  tokenRanges : List (Int × Int)
  dim0Offsets : List Int
  kvOffsets : List Int
  tpRank : Int := 0
  dpRank : Int := 0
  epRank : Int := 0
  ppRank : Int := 0
  batch : Nat := 0
  qLen : Nat := 0
  kvDim : Nat := 0
  logitsToKeep : Nat := 0
  tokenIdsDtype : Option δ := none
  actualQLen : Option Nat := none
  origPositions : Option (List π) := none
  hookRows : Option (Dict (Int × Int) (RowPlan ρ π)) := none
  captureLease : Option κ := none

/-- What the transport reads of the node toggle. -/
structure Toggle (δ : Type) where
  gateActive : Bool
  effectiveEnabledSpecs : Option (List (HookSpec δ))

/-- The step fields of the transport, all written by `set_step_context`. -/
structure Current (ρ π κ : Type) where
  modelId : String
  flattened : Bool
  reqIds : List ρ
  tokenRanges : List (Int × Int)
  dim0Offsets : List Int
  kvOffsets : List Int
  tpRank : Int
  dpRank : Int
  epRank : Int
  ppRank : Int
  origPositions : Option (List π)
  hookRows : Option (Dict (Int × Int) (RowPlan ρ π))
  captureLease : Option κ

structure RingTransport (δ ρ π κ : Type) where
  modelCfg : Option (ModelShapeConfig δ) := none
  activeSpecs : List (HookSpec δ) := []
  toggle : Option (Toggle δ) := none
  gatedStep : Bool := true
  prefillTableGate : Bool := false
  nullOffload : Bool := false
  current : Option (Current ρ π κ) := none

/-- An adapter and its transport. Attaching a model, replacing the specs and detaching write the
geometry and the specs of both. -/
structure BackendAdapter (δ ρ π κ : Type) where
  modelCfg : Option (ModelShapeConfig δ)
  activeSpecs : List (HookSpec δ)
  transport : RingTransport δ ρ π κ
  modelCfg_eq : modelCfg = transport.modelCfg
  activeSpecs_eq : activeSpecs = transport.activeSpecs

namespace RingTransport

variable (t : RingTransport δ ρ π κ)

def toggleGateActive : Bool :=
  match t.toggle with
  | some toggle => toggle.gateActive
  | none => false

def effectiveSpecs : List (HookSpec δ) :=
  match t.toggle with
  | some ⟨true, some enabled⟩ => enabled
  | _ => t.activeSpecs

def specsForStep : List (HookSpec δ) :=
  if t.gatedStep || t.prefillTableGate then t.effectiveSpecs else t.activeSpecs

def setStepContext (ctx : StepContext δ ρ π κ) : RingTransport δ ρ π κ :=
  { t with
    current := some {
      modelId := ctx.modelId, flattened := ctx.flattened, reqIds := ctx.reqIds,
      tokenRanges := ctx.tokenRanges, dim0Offsets := ctx.dim0Offsets, kvOffsets := ctx.kvOffsets,
      tpRank := ctx.tpRank, dpRank := ctx.dpRank, epRank := ctx.epRank, ppRank := ctx.ppRank,
      origPositions := ctx.origPositions, hookRows := ctx.hookRows,
      captureLease := ctx.captureLease } }

end RingTransport

/-! ### The two loops -/

/-- The number of rows that both loops give a spec: its row plan's, else the unpadded count where
the spec allows it, else the step's. -/
def specQLen (spec : HookSpec δ) (qLen : Nat) (actualQLen : Option Nat)
    (hookRows : Option (Dict (Int × Int) (RowPlan ρ π))) : Nat :=
  match hookRows.bind fun d => d.get? (spec.hookType, spec.layerNo) with
  | some rows => rows.val.rowCount.toNat
  | none =>
    match actualQLen with
    | some actual => if spec.dim0IsActualTokens then actual else qLen
    | none => qLen

structure StepPlan where
  totalBytes : Nat
  hookCount : Nat
  needsEager : Bool
deriving DecidableEq

/-- One iteration of `plan_step`. -/
def planSpec (elementSize : δ → Nat) (specNeedsEager : HookSpec δ → Bool)
    (cfg : ModelShapeConfig δ) (ctx : StepContext δ ρ π κ) (plan : StepPlan) (spec : HookSpec δ) :
    StepPlan :=
  let shape := computeHookShape spec.hookType cfg ctx.batch
    (specQLen spec ctx.qLen ctx.actualQLen ctx.hookRows) ctx.kvDim ctx.logitsToKeep
  if shape = [] then plan
  else
    let dtype := spec.dtype.getD cfg.dtype
    let nbytes := shape.foldl (· * ·) (elementSize dtype)
    { totalBytes := plan.totalBytes + alignUpPy nbytes 16
      hookCount := plan.hookCount + 1
      needsEager := plan.needsEager || specNeedsEager spec }

def BackendAdapter.planStep (elementSize : δ → Nat) (specNeedsEager : HookSpec δ → Bool)
    (a : BackendAdapter δ ρ π κ) (ctx : StepContext δ ρ π κ) : StepPlan :=
  match a.modelCfg with
  | none => ⟨0, 0, false⟩
  | some cfg =>
    if a.activeSpecs = [] then ⟨0, 0, false⟩
    else
      let specs :=
        if a.transport.toggleGateActive then a.transport.specsForStep else a.activeSpecs
      specs.foldl (planSpec elementSize specNeedsEager cfg ctx) ⟨0, 0, false⟩

/-- The metadata of one published tensor. -/
structure TensorMeta (δ : Type) where
  hookType : Int
  layerNo : Int
  shape : List Nat
  dtype : δ
  flags : Nat
deriving DecidableEq

/-- The bytes of the tensor that an entry describes. -/
def TensorMeta.bytes (elementSize : δ → Nat) (m : TensorMeta δ) : Nat :=
  m.shape.prod * elementSize m.dtype

/-- One iteration of `pre_push_all_metas`. -/
def pushSpec (cfg : ModelShapeConfig δ) (batch qLen kvDim logitsToKeep : Nat)
    (tokenIdsDtype : Option δ) (actualQLen : Option Nat)
    (hookRows : Option (Dict (Int × Int) (RowPlan ρ π))) (metas : List (TensorMeta δ))
    (spec : HookSpec δ) : List (TensorMeta δ) :=
  let shape := computeHookShape spec.hookType cfg batch (specQLen spec qLen actualQLen hookRows)
    kvDim logitsToKeep
  if shape = [] then metas
  else
    let dtype :=
      match spec.dtype with
      | some d => d
      | none =>
        if spec.hookType = hookTypeTokenIds then tokenIdsDtype.getD cfg.dtype else cfg.dtype
    metas ++ [⟨spec.hookType, spec.layerNo, shape, dtype,
      if spec.allowTokenCntMismatch then 1 else 0⟩]

/-- A row of a hook's own request layout. -/
abbrev LayoutRow (ρ π : Type) := ρ × Int × Int × Int × Int × π

/-- The layout that a row plan publishes. -/
def layoutOf (rows : RowPlan ρ π) : List (LayoutRow ρ π) :=
  (List.zip rows.val.reqIds (List.zip rows.val.tokenRanges
    (List.zip rows.val.offsets rows.val.origPositions))).map
      fun row => (row.1, row.2.1.1, row.2.1.2, row.2.2.1, 0, row.2.2.2)

/-- The arguments of `push_all_metas`. -/
structure MetaPush (δ ρ π κ : Type) where
  metas : List (TensorMeta δ)
  step : Current ρ π κ
  hookRequests : Option (List (Option (List (LayoutRow ρ π))))

/-- The transport after `pre_push_all_metas`, with what it submitted. The lease belongs to this
submission only. -/
def RingTransport.prePushAllMetas (t : RingTransport δ ρ π κ) (batch qLen kvDim : Nat)
    (logitsToKeep : Nat) (tokenIdsDtype : Option δ) (actualQLen : Option Nat) :
    RingTransport δ ρ π κ × Option (MetaPush δ ρ π κ) :=
  let t' := { t with current := t.current.map fun c => { c with captureLease := none } }
  if t.nullOffload then (t', none)
  else
    match t.modelCfg, t.current with
    | some cfg, some current =>
      if t.activeSpecs = [] then (t', none)
      else
        let metas := t.specsForStep.foldl
          (pushSpec cfg batch qLen kvDim logitsToKeep tokenIdsDtype actualQLen current.hookRows) []
        if metas = [] then (t', none)
        else
          -- an empty dictionary of row plans is no dictionary
          let requests := (current.hookRows.filter fun d => d.items ≠ []).map fun d =>
            metas.map fun m => (d.get? (m.hookType, m.layerNo)).map layoutOf
          (t', some ⟨metas, current, requests⟩)
    | _, _ => (t', none)

/-- What `commit_step` publishes for a context. -/
def BackendAdapter.publishStep (a : BackendAdapter δ ρ π κ) (ctx : StepContext δ ρ π κ) :
    RingTransport δ ρ π κ × Option (MetaPush δ ρ π κ) :=
  (a.transport.setStepContext ctx).prePushAllMetas ctx.batch ctx.qLen ctx.kvDim ctx.logitsToKeep
    ctx.tokenIdsDtype ctx.actualQLen

/-- The metadata entries that a step emits. -/
def BackendAdapter.emittedMetas (a : BackendAdapter δ ρ π κ) (ctx : StepContext δ ρ π κ) :
    List (TensorMeta δ) :=
  match (a.publishStep ctx).2 with
  | some push => push.metas
  | none => []

/-! ### Both loops over the tensors of the step -/

/-- The shape of the tensor that a spec publishes in a step. -/
def stepShape (cfg : ModelShapeConfig δ) (ctx : StepContext δ ρ π κ) (spec : HookSpec δ) :
    List Nat :=
  computeHookShape spec.hookType cfg ctx.batch
    (specQLen spec ctx.qLen ctx.actualQLen ctx.hookRows) ctx.kvDim ctx.logitsToKeep

/-- The element type under which a spec is published. -/
def publishedDtype (cfg : ModelShapeConfig δ) (ctx : StepContext δ ρ π κ) (spec : HookSpec δ) : δ :=
  match spec.dtype with
  | some d => d
  | none => if spec.hookType = hookTypeTokenIds then ctx.tokenIdsDtype.getD cfg.dtype else cfg.dtype

/-- The bytes of a spec's tensor in an element type, rounded up as the ring rounds them. -/
def alignedBytes (elementSize : δ → Nat) (cfg : ModelShapeConfig δ) (ctx : StepContext δ ρ π κ)
    (spec : HookSpec δ) (dtype : δ) : Nat :=
  alignUpPy ((stepShape cfg ctx spec).prod * elementSize dtype) 16

/-- The specs that publish a tensor. -/
def firing (cfg : ModelShapeConfig δ) (ctx : StepContext δ ρ π κ) (specs : List (HookSpec δ)) :
    List (HookSpec δ) :=
  specs.filter fun spec => stepShape cfg ctx spec ≠ []

/-- The entry of a spec that publishes a tensor. -/
def entryOf (cfg : ModelShapeConfig δ) (ctx : StepContext δ ρ π κ) (spec : HookSpec δ) :
    TensorMeta δ :=
  ⟨spec.hookType, spec.layerNo, stepShape cfg ctx spec, publishedDtype cfg ctx spec,
    if spec.allowTokenCntMismatch then 1 else 0⟩

theorem foldl_mul (shape : List Nat) (size : Nat) :
    shape.foldl (· * ·) size = shape.prod * size := by
  induction shape generalizing size with
  | nil => simp
  | cons d shape ih => rw [foldl_cons, ih, prod_cons, Nat.mul_comm size, ← Nat.mul_assoc,
      Nat.mul_comm d]

variable (elementSize : δ → Nat) (specNeedsEager : HookSpec δ → Bool)

section

variable (cfg : ModelShapeConfig δ) (ctx : StepContext δ ρ π κ) (specs : List (HookSpec δ))

theorem foldl_planSpec (plan : StepPlan) :
    specs.foldl (planSpec elementSize specNeedsEager cfg ctx) plan =
      { totalBytes := plan.totalBytes + ((firing cfg ctx specs).map fun spec =>
          alignedBytes elementSize cfg ctx spec (spec.dtype.getD cfg.dtype)).sum
        hookCount := plan.hookCount + (firing cfg ctx specs).length
        needsEager := plan.needsEager || (firing cfg ctx specs).any specNeedsEager } := by
  induction specs generalizing plan with
  | nil => simp [firing]
  | cons spec specs ih =>
    rw [foldl_cons, ih]
    by_cases hs : stepShape cfg ctx spec = []
    · have hstep : planSpec elementSize specNeedsEager cfg ctx plan spec = plan := if_pos hs
      have hfire : firing cfg ctx (spec :: specs) = firing cfg ctx specs := by
        simp [firing, hs]
      rw [hstep, hfire]
    · have hstep : planSpec elementSize specNeedsEager cfg ctx plan spec =
          { totalBytes := plan.totalBytes +
              alignedBytes elementSize cfg ctx spec (spec.dtype.getD cfg.dtype)
            hookCount := plan.hookCount + 1
            needsEager := plan.needsEager || specNeedsEager spec } := by
        unfold alignedBytes
        rw [← foldl_mul]
        exact if_neg hs
      have hfire : firing cfg ctx (spec :: specs) = spec :: firing cfg ctx specs := by
        simp [firing, hs]
      rw [hstep, hfire]
      simp only [map_cons, sum_cons, length_cons, any_cons, Bool.or_assoc,
        Nat.add_assoc, Nat.add_comm 1]

theorem foldl_pushSpec (metas : List (TensorMeta δ)) :
    specs.foldl (pushSpec cfg ctx.batch ctx.qLen ctx.kvDim ctx.logitsToKeep ctx.tokenIdsDtype
      ctx.actualQLen ctx.hookRows) metas
        = metas ++ (firing cfg ctx specs).map (entryOf cfg ctx) := by
  induction specs generalizing metas with
  | nil => simp [firing]
  | cons spec specs ih =>
    rw [foldl_cons, ih]
    by_cases hs : stepShape cfg ctx spec = []
    · have hstep : pushSpec cfg ctx.batch ctx.qLen ctx.kvDim ctx.logitsToKeep ctx.tokenIdsDtype
          ctx.actualQLen ctx.hookRows metas spec = metas := if_pos hs
      have hfire : firing cfg ctx (spec :: specs) = firing cfg ctx specs := by
        simp [firing, hs]
      rw [hstep, hfire]
    · have hstep : pushSpec cfg ctx.batch ctx.qLen ctx.kvDim ctx.logitsToKeep ctx.tokenIdsDtype
          ctx.actualQLen ctx.hookRows metas spec = metas ++ [entryOf cfg ctx spec] := if_neg hs
      have hfire : firing cfg ctx (spec :: specs) = spec :: firing cfg ctx specs := by
        simp [firing, hs]
      rw [hstep, hfire, map_cons, append_assoc, singleton_append]

end

/-! ### The specs of the step -/

/-- While no gate is active every active spec is in the step's set, gated or not. -/
theorem RingTransport.specsForStep_of_inactive (t : RingTransport δ ρ π κ)
    (h : t.toggleGateActive = false) : t.specsForStep = t.activeSpecs := by
  have heff : t.effectiveSpecs = t.activeSpecs := by
    unfold effectiveSpecs
    unfold toggleGateActive at h
    split
    · rename_i heq
      rw [heq] at h
      cases h
    · rfl
  unfold specsForStep
  rw [heff, ite_self]

/-- The specs of the step: the ones that the transport publishes. -/
def BackendAdapter.stepSpecs (a : BackendAdapter δ ρ π κ) : List (HookSpec δ) :=
  if a.activeSpecs = [] then [] else a.transport.specsForStep

section

variable (a : BackendAdapter δ ρ π κ) (ctx : StepContext δ ρ π κ)

theorem BackendAdapter.planStep_eq {cfg : ModelShapeConfig δ} (hcfg : a.modelCfg = some cfg) :
    a.planStep elementSize specNeedsEager ctx =
      a.stepSpecs.foldl (planSpec elementSize specNeedsEager cfg ctx) ⟨0, 0, false⟩ := by
  unfold planStep stepSpecs
  rw [hcfg]
  dsimp only
  by_cases hnil : a.activeSpecs = []
  · rw [if_pos hnil, if_pos hnil]
    rfl
  · rw [if_neg hnil, if_neg hnil]
    cases hgate : a.transport.toggleGateActive with
    | true => rfl
    | false => rw [a.transport.specsForStep_of_inactive hgate, ← a.activeSpecs_eq]; rfl

theorem BackendAdapter.emittedMetas_eq
    (hnull : a.transport.nullOffload = false) {cfg : ModelShapeConfig δ}
    (hcfg : a.modelCfg = some cfg) :
    a.emittedMetas ctx = (firing cfg ctx a.stepSpecs).map (entryOf cfg ctx) := by
  have hpush := foldl_pushSpec cfg ctx a.transport.specsForStep []
  rw [nil_append] at hpush
  unfold emittedMetas publishStep RingTransport.prePushAllMetas stepSpecs
  rw [show (a.transport.setStepContext ctx).nullOffload = false from hnull,
    show (a.transport.setStepContext ctx).modelCfg = some cfg from a.modelCfg_eq ▸ hcfg,
    show (a.transport.setStepContext ctx).activeSpecs = a.activeSpecs from a.activeSpecs_eq.symm,
    show (a.transport.setStepContext ctx).specsForStep = a.transport.specsForStep from rfl]
  simp only [RingTransport.setStepContext, Bool.false_eq_true, if_false]
  by_cases hnil : a.activeSpecs = []
  · rw [if_pos hnil, if_pos hnil]
    rfl
  · rw [if_neg hnil, if_neg hnil, hpush]
    by_cases hm : (firing cfg ctx a.transport.specsForStep).map (entryOf cfg ctx) = []
    · rw [if_pos hm, hm]
    · rw [if_neg hm]

end

/-! ### Reservation against publication -/

/-- The number of token ids that a spec publishes. -/
def tokenIdCount (ctx : StepContext δ ρ π κ) (spec : HookSpec δ) : Nat :=
  (if 0 < ctx.batch then ctx.batch else 1) * specQLen spec ctx.qLen ctx.actualQLen ctx.hookRows

/-- The token ids of the step that have no element type of their own take the same room in the type
of the model, if the step gives another type. -/
def BackendAdapter.TokenIdsSized (elementSize : δ → Nat) (a : BackendAdapter δ ρ π κ)
    (ctx : StepContext δ ρ π κ) : Prop :=
  ∀ cfg, a.modelCfg = some cfg → ∀ dtype, ctx.tokenIdsDtype = some dtype →
    ∀ spec ∈ a.stepSpecs, spec.hookType = hookTypeTokenIds → spec.dtype = none →
      alignUpPy (tokenIdCount ctx spec * elementSize dtype) 16
        = alignUpPy (tokenIdCount ctx spec * elementSize cfg.dtype) 16

theorem prod_stepShape_tokenIds (cfg : ModelShapeConfig δ) (ctx : StepContext δ ρ π κ)
    {spec : HookSpec δ} (htype : spec.hookType = hookTypeTokenIds) :
    stepShape cfg ctx spec ≠ [] ∧ (stepShape cfg ctx spec).prod = tokenIdCount ctx spec := by
  unfold stepShape tokenIdCount
  rw [htype, computeHookShape_tokenIds]
  refine ⟨by simp, ?_⟩
  split <;> simp

theorem sum_map_eq_iff {α : Type} {f g : α → Nat} {l : List α} (h : ∀ x ∈ l, f x ≤ g x) :
    (l.map f).sum = (l.map g).sum ↔ ∀ x ∈ l, f x = g x := by
  constructor
  · intro heq x hx
    by_contra hne
    have hlt : (l.map f).sum < (l.map g).sum :=
      sum_lt_sum f g h ⟨x, hx, lt_of_le_of_ne (h x hx) hne⟩
    omega
  · intro heq
    rw [map_congr_left heq]

/-- Planned and published sizes differ in one direction only: the one in which the element sizes of
the model's type and of the step's token ids differ. -/
theorem plannedBytes_le_or_ge (cfg : ModelShapeConfig δ) (ctx : StepContext δ ρ π κ) :
    (∀ spec : HookSpec δ, alignedBytes elementSize cfg ctx spec (spec.dtype.getD cfg.dtype)
      ≤ alignedBytes elementSize cfg ctx spec (publishedDtype cfg ctx spec)) ∨
    ∀ spec : HookSpec δ, alignedBytes elementSize cfg ctx spec (publishedDtype cfg ctx spec)
      ≤ alignedBytes elementSize cfg ctx spec (spec.dtype.getD cfg.dtype) := by
  have hmono : ∀ (spec : HookSpec δ) (d d' : δ), elementSize d ≤ elementSize d' →
      alignedBytes elementSize cfg ctx spec d ≤ alignedBytes elementSize cfg ctx spec d' :=
    fun spec d d' h => alignUpPy_mono 16 (Nat.mul_le_mul_left _ h)
  rcases Nat.le_total (elementSize cfg.dtype) (elementSize (ctx.tokenIdsDtype.getD cfg.dtype))
    with hle | hle
  · left
    intro spec
    apply hmono
    unfold publishedDtype
    cases spec.dtype with
    | some d => exact Nat.le_refl _
    | none =>
      dsimp only [Option.getD_none]
      split
      · exact hle
      · exact Nat.le_refl _
  · right
    intro spec
    apply hmono
    unfold publishedDtype
    cases spec.dtype with
    | some d => exact Nat.le_refl _
    | none =>
      dsimp only [Option.getD_none]
      split
      · exact hle
      · exact Nat.le_refl _

/-- A spec's planned and published sizes agree iff it is not a token-ids spec that the step sizes
differently. -/
theorem plannedBytes_eq_iff (cfg : ModelShapeConfig δ) (ctx : StepContext δ ρ π κ)
    (spec : HookSpec δ) :
    alignedBytes elementSize cfg ctx spec (spec.dtype.getD cfg.dtype)
        = alignedBytes elementSize cfg ctx spec (publishedDtype cfg ctx spec) ↔
      ∀ dtype, ctx.tokenIdsDtype = some dtype → spec.hookType = hookTypeTokenIds →
        spec.dtype = none → alignUpPy (tokenIdCount ctx spec * elementSize dtype) 16
          = alignUpPy (tokenIdCount ctx spec * elementSize cfg.dtype) 16 := by
  unfold publishedDtype
  cases hd : spec.dtype with
  | some d => simp
  | none =>
    by_cases htype : spec.hookType = hookTypeTokenIds
    · have hprod := (prod_stepShape_tokenIds cfg ctx htype).2
      cases hctx : ctx.tokenIdsDtype with
      | none => simp
      | some dtype => simp [htype, alignedBytes, hprod, eq_comm]
    · simp [htype]

/-- **What a step reserves is what it publishes, exactly when its token ids are sized alike.** The
number of entries always agrees; the bytes agree iff every token-ids spec of the step without an
element type of its own takes the same room in the step's type and in the model's. -/
theorem planStep_matches_metas_iff (elementSize : δ → Nat) (specNeedsEager : HookSpec δ → Bool)
    (a : BackendAdapter δ ρ π κ) (ctx : StepContext δ ρ π κ)
    (hnull : a.transport.nullOffload = false) :
    ((a.planStep elementSize specNeedsEager ctx).totalBytes
        = ((a.emittedMetas ctx).map fun m => alignUpPy (m.bytes elementSize) 16).sum ∧
      (a.planStep elementSize specNeedsEager ctx).hookCount = (a.emittedMetas ctx).length) ↔
    a.TokenIdsSized elementSize ctx := by
  cases hcfg : a.modelCfg with
  | none =>
    have hmetas : a.emittedMetas ctx = [] := by
      have ht : (a.transport.setStepContext ctx).modelCfg = none := a.modelCfg_eq ▸ hcfg
      simp [BackendAdapter.emittedMetas, BackendAdapter.publishStep,
        RingTransport.prePushAllMetas, ht]
    have hplan : a.planStep elementSize specNeedsEager ctx = ⟨0, 0, false⟩ := by
      unfold BackendAdapter.planStep
      rw [hcfg]
    rw [hmetas, hplan]
    exact ⟨fun _ cfg h => absurd (hcfg.symm.trans h) (by simp), fun _ => ⟨rfl, rfl⟩⟩
  | some cfg =>
    have hbytes : (a.emittedMetas ctx).map (fun m => alignUpPy (m.bytes elementSize) 16)
        = (firing cfg ctx a.stepSpecs).map fun spec =>
          alignedBytes elementSize cfg ctx spec (publishedDtype cfg ctx spec) := by
      rw [a.emittedMetas_eq ctx hnull hcfg, map_map]
      rfl
    have hlen : (a.emittedMetas ctx).length = (firing cfg ctx a.stepSpecs).length := by
      rw [a.emittedMetas_eq ctx hnull hcfg, length_map]
    rw [hbytes, hlen, a.planStep_eq elementSize specNeedsEager ctx hcfg, foldl_planSpec]
    simp only [Nat.zero_add, and_true]
    have hsum : ((firing cfg ctx a.stepSpecs).map fun spec =>
          alignedBytes elementSize cfg ctx spec (spec.dtype.getD cfg.dtype)).sum
        = ((firing cfg ctx a.stepSpecs).map fun spec =>
          alignedBytes elementSize cfg ctx spec (publishedDtype cfg ctx spec)).sum ↔
        ∀ spec ∈ firing cfg ctx a.stepSpecs,
          alignedBytes elementSize cfg ctx spec (spec.dtype.getD cfg.dtype)
            = alignedBytes elementSize cfg ctx spec (publishedDtype cfg ctx spec) := by
      rcases plannedBytes_le_or_ge elementSize cfg ctx with hle | hge
      · exact sum_map_eq_iff fun spec _ => hle spec
      · rw [eq_comm, sum_map_eq_iff fun spec _ => hge spec]
        simp only [eq_comm]
    rw [hsum]
    constructor
    · intro hall cfg' hcfg' dtype hdtype spec hspec htype hnone
      obtain rfl : cfg = cfg' := Option.some.inj (hcfg.symm.trans hcfg')
      have hfire : spec ∈ firing cfg ctx a.stepSpecs :=
        mem_filter.mpr
          ⟨hspec, decide_eq_true (prod_stepShape_tokenIds cfg ctx htype).1⟩
      exact (plannedBytes_eq_iff elementSize cfg ctx spec).mp (hall spec hfire) dtype hdtype
        htype hnone
    · intro hsized spec hspec
      rw [plannedBytes_eq_iff]
      intro dtype hdtype htype hnone
      exact hsized cfg hcfg dtype hdtype spec (mem_filter.mp hspec).1 htype hnone

/-- An adapter with one token-ids spec, attached to a model in half precision. -/
def tokenIdsAdapter (dtype : Option Capture.DType) : BackendAdapter Capture.DType Nat Nat Unit :=
  let cfg : ModelShapeConfig Capture.DType :=
    { hiddenDim := 64, numHeads := 4, numKvHeads := 4, headDim := 16, dtype := .float16 }
  let specs := [{ hookType := hookTypeTokenIds, dtype := dtype }]
  { modelCfg := some cfg, activeSpecs := specs
    transport := { modelCfg := some cfg, activeSpecs := specs }
    modelCfg_eq := rfl, activeSpecs_eq := rfl }

/-- A prefill of two requests with eight tokens each, with ids of 64 bits. -/
def tokenIdsStep : StepContext Capture.DType Nat Nat Unit :=
  { modelId := "m", flattened := false, reqIds := [0, 1], tokenRanges := [(0, 8), (0, 8)]
    dim0Offsets := [0, 1], kvOffsets := [0, 0], batch := 2, qLen := 8, kvDim := 8
    tokenIdsDtype := some .int64 }

/-- The spec has an element type of its own. -/
theorem planStep_matches_metas_iff_tokenIds :
    let a := tokenIdsAdapter (some .int64)
    (a.planStep Capture.DType.bytes (fun _ => false) tokenIdsStep).totalBytes =
        ((a.emittedMetas tokenIdsStep).map fun m =>
          alignUpPy (m.bytes Capture.DType.bytes) 16).sum ∧
      (a.planStep Capture.DType.bytes (fun _ => false) tokenIdsStep).hookCount =
        (a.emittedMetas tokenIdsStep).length := by
  refine (planStep_matches_metas_iff _ _ _ _ rfl).mpr ?_
  rintro cfg - dtype - spec hspec - hnone
  cases mem_singleton.mp hspec
  cases hnone

/-- Sixteen ids of 64 bits are published with 128 bytes and reserved with 32. -/
theorem planStep_reserves_too_little :
    ((tokenIdsAdapter none).emittedMetas tokenIdsStep).map (·.bytes Capture.DType.bytes) = [128] ∧
      (tokenIdsAdapter none).planStep Capture.DType.bytes (fun _ => false) tokenIdsStep
        = ⟨32, 1, false⟩ := by
  decide

end Dmi.Adapter
