import Dmi.Adapter.Specs
import Dmi.Lib.Dict

/-! # Hook selection and the rank and layer filters

A model names a hook point for each spec it exposes. Attaching it walks over the specs several
times: `apply_hook_selection` writes the switch of every hook point by the selection string, and
`filter_by_layers`, `filter_by_pp_rank` and `filter_by_tp_rank` each drop specs and switch their
hook points off. A hook point that several specs name is written by each of them, in list order.

* `setEnabled_enabled`: after the selection the last spec that names a hook point decides.
* `narrows_filterBy`: a filter keeps the specs that belong, and one that does not is enough to
  switch its hook point off. Passes compose (`Narrows.trans`).
-/

namespace Dmi.Adapter

open List

/-! ### Catalog -/

inductive PpStage where
  | any | first | last
deriving DecidableEq, Repr

/-- The columns of `HOOK_DEFS` that selection reads. -/
structure HookDef where
  id : Int
  shortName : String
  tpSharded : Bool
  shapeClass : ShapeClass
  ppStage : PpStage
deriving DecidableEq

def hookCatalog : List HookDef :=
  [⟨0, "resid_pre", false, .hidden, .any⟩, ⟨1, "ln1", false, .hidden, .any⟩,
    ⟨2, "attn_out", false, .hidden, .any⟩, ⟨3, "resid_mid", false, .hidden, .any⟩,
    ⟨4, "attn_scores", true, .attnWt, .any⟩, ⟨5, "pattern", true, .attnWt, .any⟩,
    ⟨6, "q", true, .qkvQ, .any⟩, ⟨7, "k", true, .qkvKv, .any⟩, ⟨8, "v", true, .qkvKv, .any⟩,
    ⟨9, "z", true, .qkvZ, .any⟩, ⟨11, "ln2", false, .hidden, .any⟩,
    ⟨12, "mlp_in", false, .hidden, .any⟩, ⟨13, "mlp_out", false, .hidden, .any⟩,
    ⟨20, "mlp_post", true, .mlpPost, .any⟩, ⟨14, "resid_final", false, .hidden, .last⟩,
    ⟨15, "embed", false, .hidden, .first⟩, ⟨16, "pos_embed", false, .hidden, .first⟩,
    ⟨17, "final_ln", false, .hidden, .last⟩, ⟨18, "token_ids", false, .tokenIds, .first⟩,
    ⟨19, "final_logits", false, .logits, .last⟩,
    ⟨21, "router_logits", false, .routerLogits, .any⟩, ⟨22, "topk_ids", false, .topkIds, .any⟩,
    ⟨23, "topk_weights", false, .topkWeights, .any⟩,
    ⟨24, "resid_pre_head", false, .headScores, .any⟩,
    ⟨25, "final_ln_head", false, .headScores, .last⟩]

example : hookCatalog.map (fun d => (d.id, d.shapeClass)) = hookDefs := by decide

def tpShardedTypes : List Int := (hookCatalog.filter fun d => d.tpSharded).map HookDef.id
def ppFirstOnly : List Int := (hookCatalog.filter fun d => d.ppStage = .first).map HookDef.id
def ppLastOnly : List Int := (hookCatalog.filter fun d => d.ppStage = .last).map HookDef.id

/-- `_HOOK_SELECTIONS`: a selection name and the hook types it stands for. -/
abbrev Selections := Dict String (List Int)

/-- The presets, every hook type by its short name, and the aliases. -/
def hookSelections : Selections :=
  let presets := (Dict.empty.set "full" (hookCatalog.map HookDef.id)).set "hf-only" [0, 17, 5, 19]
  let named := hookCatalog.foldl (fun d def_ => d.set def_.shortName [def_.id]) presets
  (((named.set "hidden-states" [0]).set "hidden_states" [0]).set "logits" [19]).set "token-ids" [18]

/-! ### Specs and hook points -/

/-- A spec and the hook point it names; model-wide specs name none. -/
structure BoundSpec (μ δ : Type) where
  spec : HookSpec δ
  module : Option μ
deriving DecidableEq

/-- The state of a hook point that its forward pass reads. -/
structure HookPoint where
  enabled : Bool := true
  ringHookType : Option Int := none
  ringHookId : Option Int := none
  headHookType : Option Int := none
deriving DecidableEq

/-- A forward pass through the hook point launches a producer. -/
def HookPoint.fires (p : HookPoint) : Bool :=
  p.enabled && (p.ringHookType.isSome || p.headHookType.isSome)

inductive AttachError where
  | captureStorage (backend : String)
  | noTransport
  | unknownSelection (token : String)
  | emptySelection (mode : String)
  | unboundSpec (caller : String)
  | layerRange (start stop : Int)
deriving DecidableEq

variable {μ δ : Type}

/-! ### The selection string -/

/-- The characters that `str.strip` removes. -/
def isPySpace (c : Char) : Bool :=
  let n := c.toNat
  (9 ≤ n && n ≤ 13) || (28 ≤ n && n ≤ 32) || n == 0x85 || n == 0xa0 || n == 0x1680 ||
    (0x2000 ≤ n && n ≤ 0x200a) || n == 0x2028 || n == 0x2029 || n == 0x202f || n == 0x205f ||
    n == 0x3000

def strip (token : List Char) : List Char :=
  ((token.dropWhile isPySpace).reverse.dropWhile isPySpace).reverse

/-- The loop of `resolve_hook_selection`. -/
def resolveTokens (selections : Selections) :
    List (List Char) → List Int → Except AttachError (List Int)
  | [], result => .ok result
  | token :: tokens, result =>
    let token := String.ofList (strip token)
    if token = "" then resolveTokens selections tokens result
    else
      match selections.get? token with
      | none => .error (.unknownSelection token)
      | some entry => resolveTokens selections tokens (result ++ entry)

def resolveHookSelection (selections : Selections) (mode : String) :
    Except AttachError (List Int) := do
  let result ← resolveTokens selections (mode.toList.splitOn ',') []
  if result = [] then .error (.emptySelection mode) else .ok result

example : resolveHookSelection hookSelections " resid_pre ,logits,," = .ok [0, 19] := by
  decide +kernel

/-- The hook types whose shape needs a size that the model does not give. -/
def unavailable (cfg : ModelShapeConfig δ) : List Int :=
  (if cfg.intermediateDim = 0 then [hookTypeMlpPost] else []) ++
  (if cfg.numExperts = 0 then [hookTypeRouterLogits] else []) ++
  (if cfg.topK = 0 then [hookTypeTopkIds, hookTypeTopkWeights] else [])

/-- The test of `select_hook_specs`. -/
def selects (allowed : List Int) (cfg : ModelShapeConfig δ) (s : BoundSpec μ δ) : Bool :=
  s.spec.hookType ∈ allowed && s.spec.hookType ∉ unavailable cfg

def selectHookSpecs (allowed : List Int) (cfg : ModelShapeConfig δ) (specs : List (BoundSpec μ δ)) :
    List (BoundSpec μ δ) :=
  specs.filter (selects allowed cfg)

section Points

variable [DecidableEq μ]

def setSwitch (points : μ → HookPoint) (m : μ) (on : Bool) : μ → HookPoint :=
  Function.update points m { points m with enabled := on }

/-- The loop of `apply_hook_selection`. Specs with the same fields are selected alike, so that
membership by identity is membership. -/
def setEnabled [DecidableEq δ] (enabledSpecs : List (BoundSpec μ δ)) :
    (μ → HookPoint) → List (BoundSpec μ δ) → Except AttachError (μ → HookPoint)
  | points, [] => .ok points
  | points, s :: specs =>
    match s.module with
    | none => .error (.unboundSpec "apply_hook_selection")
    | some m => setEnabled enabledSpecs (setSwitch points m (decide (s ∈ enabledSpecs))) specs

def applyHookSelection [DecidableEq δ] (selections : Selections) (points : μ → HookPoint)
    (specs : List (BoundSpec μ δ)) (mode : String) (cfg : ModelShapeConfig δ) :
    Except AttachError ((μ → HookPoint) × List (BoundSpec μ δ)) := do
  let allowed ← resolveHookSelection selections mode
  let enabledSpecs := selectHookSpecs allowed cfg specs
  let points ← setEnabled enabledSpecs points specs
  return (points, enabledSpecs)

/-! ### The filters -/

/-- The loop that the three filters share: a spec that does not belong is dropped and its hook
point switched off. -/
def filterBy (caller : String) (belongs : BoundSpec μ δ → Bool) :
    (μ → HookPoint) → List (BoundSpec μ δ) →
      Except AttachError ((μ → HookPoint) × List (BoundSpec μ δ))
  | points, [] => .ok (points, [])
  | points, s :: specs =>
    if belongs s then do
      let (points, kept) ← filterBy caller belongs points specs
      return (points, s :: kept)
    else
      match s.module with
      | none => .error (.unboundSpec caller)
      | some m => filterBy caller belongs (setSwitch points m false) specs

def hookBelongsToPpRank (isFirstRank isLastRank : Bool) (s : BoundSpec μ δ) : Bool :=
  if s.spec.hookType ∈ ppFirstOnly ∧ ¬ isFirstRank then false
  else if s.spec.hookType ∈ ppLastOnly ∧ ¬ isLastRank then false
  else true

def hookBelongsToTpRank (tpRank : Int) (s : BoundSpec μ δ) : Bool :=
  tpRank = 0 || s.spec.hookType ∈ tpShardedTypes

/-- Global hooks, those with a negative layer, are in every range. -/
def hookBelongsToLayers (start stop : Int) (s : BoundSpec μ δ) : Bool :=
  if s.spec.layerNo < 0 then true else start ≤ s.spec.layerNo && s.spec.layerNo ≤ stop

def filterByPpRank (points : μ → HookPoint) (specs : List (BoundSpec μ δ))
    (isFirstRank isLastRank : Bool) : Except AttachError ((μ → HookPoint) × List (BoundSpec μ δ)) :=
  filterBy "filter_by_pp_rank" (hookBelongsToPpRank isFirstRank isLastRank) points specs

def filterByTpRank (points : μ → HookPoint) (specs : List (BoundSpec μ δ)) (tpRank : Int) :
    Except AttachError ((μ → HookPoint) × List (BoundSpec μ δ)) :=
  if tpRank = 0 then .ok (points, specs)
  else filterBy "filter_by_tp_rank" (hookBelongsToTpRank tpRank) points specs

def filterByLayers (points : μ → HookPoint) (specs : List (BoundSpec μ δ)) (start stop : Int) :
    Except AttachError ((μ → HookPoint) × List (BoundSpec μ δ)) :=
  if stop < start then .error (.layerRange start stop)
  else filterBy "filter_by_layers" (hookBelongsToLayers start stop) points specs

/-! ### What the passes do to the switches -/

/-- The specs that name a hook point, in list order. -/
def naming (m : μ) (specs : List (BoundSpec μ δ)) : List (BoundSpec μ δ) :=
  specs.filter fun s => s.module = some m

variable {specs : List (BoundSpec μ δ)}

theorem mem_naming {m : μ} {s : BoundSpec μ δ} :
    s ∈ naming m specs ↔ s ∈ specs ∧ s.module = some m := by
  simp [naming]

theorem naming_cons (m : μ) (s : BoundSpec μ δ) (specs : List (BoundSpec μ δ)) :
    naming m (s :: specs) = if s.module = some m then s :: naming m specs else naming m specs := by
  by_cases h : s.module = some m <;> simp [naming, h]

variable (points : μ → HookPoint)

theorem setSwitch_enabled (m m' : μ) (on : Bool) :
    (setSwitch points m on m').enabled = if m' = m then on else (points m').enabled := by
  by_cases h : m' = m
  · subst h
    simp [setSwitch]
  · simp [setSwitch, h]

/-- **The last spec that names a hook point decides its switch.** -/
theorem setEnabled_enabled [DecidableEq δ] {enabledSpecs : List (BoundSpec μ δ)}
    {points points' : μ → HookPoint} (h : setEnabled enabledSpecs points specs = .ok points')
    (m : μ) :
    (points' m).enabled =
      match (naming m specs).getLast? with
      | none => (points m).enabled
      | some s => decide (s ∈ enabledSpecs) := by
  induction specs generalizing points with
  | nil =>
    cases h
    rfl
  | cons s specs ih =>
    cases hs : s.module with
    | none =>
      simp only [setEnabled, hs] at h
      cases h
    | some m₁ =>
      simp only [setEnabled, hs] at h
      rw [ih h, naming_cons, hs, setSwitch_enabled]
      by_cases hm : m = m₁
      · subst hm
        rw [if_pos rfl, if_pos rfl, getLast?_cons]
        cases (naming m specs).getLast? <;> rfl
      · have hne : ¬ some m₁ = some m := fun heq => hm (Option.some.inj heq).symm
        rw [if_neg hne, if_neg hm]

/-- One pass over the specs: those with `b` are kept, and the hook points of the others are
switched off. -/
structure Narrows (b : BoundSpec μ δ → Bool) (points : μ → HookPoint)
    (specs : List (BoundSpec μ δ)) (points' : μ → HookPoint) (kept : List (BoundSpec μ δ)) :
    Prop where
  kept_eq : kept = specs.filter b
  enabled : ∀ m, (points' m).enabled = ((points m).enabled && (naming m specs).all b)

theorem narrows_refl (specs : List (BoundSpec μ δ)) :
    Narrows (fun _ => true) points specs points specs where
  kept_eq := by simp
  enabled := by simp

theorem naming_filter (m : μ) (b : BoundSpec μ δ → Bool) (specs : List (BoundSpec μ δ)) :
    naming m (specs.filter b) = (naming m specs).filter b := by
  simp only [naming, filter_filter, Bool.and_comm]

theorem all_and_all_filter {α : Type} (b c : α → Bool) (l : List α) :
    (l.all b && (l.filter b).all c) = l.all fun x => b x && c x := by
  induction l with
  | nil => rfl
  | cons x l ih =>
    cases hx : b x with
    | true => simp [hx, ← ih, Bool.and_left_comm]
    | false => simp [hx]

theorem Narrows.trans {b c : BoundSpec μ δ → Bool} {points points₁ points₂ : μ → HookPoint}
    {specs₁ specs₂ : List (BoundSpec μ δ)} (h₁ : Narrows b points specs points₁ specs₁)
    (h₂ : Narrows c points₁ specs₁ points₂ specs₂) :
    Narrows (fun s => b s && c s) points specs points₂ specs₂ where
  kept_eq := by
    rw [h₂.kept_eq, h₁.kept_eq, filter_filter]
    simp only [Bool.and_comm]
  enabled := by
    intro m
    rw [h₂.enabled, h₁.enabled, h₁.kept_eq, naming_filter, Bool.and_assoc, all_and_all_filter]

variable {kept : List (BoundSpec μ δ)}

/-- **A filter keeps the specs that belong and switches off the hook points of the others.** -/
theorem narrows_filterBy {caller : String} {belongs : BoundSpec μ δ → Bool}
    {points points' : μ → HookPoint}
    (h : filterBy caller belongs points specs = .ok (points', kept)) :
    Narrows belongs points specs points' kept := by
  induction specs generalizing points kept with
  | nil =>
    cases h
    exact ⟨rfl, by simp [naming]⟩
  | cons s specs ih =>
    by_cases hb : belongs s = true
    · simp only [filterBy, if_pos hb] at h
      cases hrest : filterBy caller belongs points specs with
      | error e =>
        rw [hrest] at h
        cases h
      | ok r =>
        rw [hrest] at h
        cases h
        have hn := ih hrest
        refine ⟨by rw [filter_cons_of_pos hb, hn.kept_eq], fun m => ?_⟩
        rw [hn.enabled, naming_cons]
        by_cases hm : s.module = some m
        · rw [if_pos hm, all_cons, hb, Bool.true_and]
        · rw [if_neg hm]
    · cases hs : s.module with
      | none =>
        simp only [filterBy, if_neg hb, hs] at h
        cases h
      | some m₁ =>
        simp only [filterBy, if_neg hb, hs] at h
        have hn := ih h
        refine ⟨by rw [filter_cons_of_neg hb, hn.kept_eq], fun m => ?_⟩
        rw [hn.enabled, naming_cons, hs, setSwitch_enabled]
        by_cases hm : m = m₁
        · subst hm
          simp [hb]
        · have hne : ¬ some m₁ = some m := fun heq => hm (Option.some.inj heq).symm
          rw [if_neg hm, if_neg hne]

theorem narrows_filterByPpRank {isFirstRank isLastRank : Bool} {points points' : μ → HookPoint}
    (h : filterByPpRank points specs isFirstRank isLastRank = .ok (points', kept)) :
    Narrows (hookBelongsToPpRank isFirstRank isLastRank) points specs points' kept :=
  narrows_filterBy h

theorem narrows_filterByTpRank {tpRank : Int} {points points' : μ → HookPoint}
    (h : filterByTpRank points specs tpRank = .ok (points', kept)) :
    Narrows (hookBelongsToTpRank tpRank) points specs points' kept := by
  unfold filterByTpRank at h
  by_cases hzero : tpRank = 0
  · rw [if_pos hzero] at h
    cases h
    have hall : hookBelongsToTpRank tpRank = fun _ : BoundSpec μ δ => true := by
      funext s
      simp [hookBelongsToTpRank, hzero]
    rw [hall]
    exact narrows_refl points specs
  · rw [if_neg hzero] at h
    exact narrows_filterBy h

theorem narrows_filterByLayers {start stop : Int} {points points' : μ → HookPoint}
    (h : filterByLayers points specs start stop = .ok (points', kept)) :
    Narrows (hookBelongsToLayers start stop) points specs points' kept := by
  unfold filterByLayers at h
  by_cases hrange : stop < start
  · rw [if_pos hrange] at h
    cases h
  · rw [if_neg hrange] at h
    exact narrows_filterBy h

end Points

end Dmi.Adapter
