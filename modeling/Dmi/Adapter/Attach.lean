import Dmi.Adapter.Selection
import Dmi.Adapter.Step

/-! # Attaching a model

`attach_model` resolves the model's geometry, runs the selection and the filters over the specs
that the model exposes, and binds the specs that are left to their hook points. From then on a
forward pass publishes a tensor for each hook point that is switched on, and each step publishes a
metadata entry for each active spec with a shape. The two are read back in order, so that they have
to be the same hooks.

* `attachModel_spec`: the active specs are those that the selection and the filters take, and a
  hook point is left on if it is `Uncontested`: the last spec that names it is selected, and every
  selected spec that names it belongs to the layers and ranks.
* `computeHookShape_ne_nil_iff`: whether a selected hook has a shape depends on its type and the
  geometry alone. The selection looks at the sizes of four hook types; the logits and the heads,
  whose shape needs a size too, are not among them.
-/

namespace Dmi.Adapter

open List

variable {μ δ ρ π κ : Type}

/-! ### Binding the specs -/

section Binding

variable [DecidableEq μ]

/-- A new attachment drops the previous row key and the gather and head state. -/
def clearPoint (points : μ → HookPoint) (m : μ) : μ → HookPoint :=
  Function.update points m { points m with ringHookType := none, headHookType := none }

/-- A head spec names the hook point whose rows it scores, it is not its row producer. -/
def bindPoint (points : μ → HookPoint) (m : μ) (spec : HookSpec δ) : μ → HookPoint :=
  if spec.hookType ∈ headTypes then points
  else
    Function.update points m
      { points m with ringHookType := some spec.hookType, ringHookId := some spec.layerNo }

/-- One of the two loops of `install_ring_hooks` over bound specs. -/
def overBound (f : (μ → HookPoint) → μ → HookSpec δ → μ → HookPoint) (points : μ → HookPoint)
    (specs : List (BoundSpec μ δ)) : μ → HookPoint :=
  specs.foldl (fun points s => match s.module with
    | none => points
    | some m => f points m s.spec) points

def installRingHooks (points : μ → HookPoint) (specs : List (BoundSpec μ δ)) :
    Except AttachError (μ → HookPoint) :=
  if specs.any fun s => s.module.isNone then .error (.unboundSpec "install_ring_hooks")
  else .ok (overBound bindPoint (overBound (fun points m _ => clearPoint points m) points specs)
    specs)

end Binding

/-! ### Attachment -/

inductive StorageBackend where
  | inMemory | persistent | none
deriving DecidableEq

/-- What `attach_model` asks of the framework's adapter and of the engine. -/
structure AttachEnv (δ : Type) where
  storageBackend : StorageBackend
  hasTransport : Bool
  cfg : ModelShapeConfig δ
  tpRank : Int
  isPpFirst : Bool
  isPpLast : Bool

/-- The state after an attachment. -/
structure Attached (μ δ ρ π κ : Type) where
  adapter : BackendAdapter δ ρ π κ
  cfg : ModelShapeConfig δ
  specs : List (BoundSpec μ δ)
  points : μ → HookPoint
  activeSpecs_eq : adapter.activeSpecs = specs.map BoundSpec.spec
  modelCfg_eq : adapter.modelCfg = some cfg

/-- The adapter whose model and specs have been set, in the transport as well. -/
def BackendAdapter.withSpecs (a : BackendAdapter δ ρ π κ) (cfg : ModelShapeConfig δ)
    (specs : List (HookSpec δ)) : BackendAdapter δ ρ π κ where
  modelCfg := some cfg
  activeSpecs := specs
  transport := { a.transport with modelCfg := some cfg, activeSpecs := specs }
  modelCfg_eq := rfl
  activeSpecs_eq := rfl

variable [DecidableEq μ]

/-- The layer filter runs only if a range is given. -/
def filterByRange (points : μ → HookPoint) (specs : List (BoundSpec μ δ))
    (layers : Option (Int × Int)) : Except AttachError ((μ → HookPoint) × List (BoundSpec μ δ)) :=
  match layers with
  | some (start, stop) => filterByLayers points specs start stop
  | none => .ok (points, specs)

/-- The passes over the specs: selection, layers, pipeline rank, tensor rank. -/
def selectSpecs [DecidableEq δ] (selections : Selections) (env : AttachEnv δ)
    (points : μ → HookPoint) (specs : List (BoundSpec μ δ)) (hookSelection : String)
    (layers : Option (Int × Int)) :
    Except AttachError ((μ → HookPoint) × List (BoundSpec μ δ)) := do
  let (points, specs) ← applyHookSelection selections points specs hookSelection env.cfg
  let (points, specs) ← filterByRange points specs layers
  let (points, specs) ← filterByPpRank points specs env.isPpFirst env.isPpLast
  filterByTpRank points specs env.tpRank

def attachModel [DecidableEq δ] (selections : Selections) (env : AttachEnv δ)
    (a : BackendAdapter δ ρ π κ) (points : μ → HookPoint) (specs : List (BoundSpec μ δ))
    (hookSelection : String)
    (layers : Option (Int × Int)) : Except AttachError (Attached μ δ ρ π κ) :=
  match env.storageBackend with
  | .none => .error (.captureStorage "none")
  | .persistent => .error (.captureStorage "persistent")
  | .inMemory =>
    if ¬ env.hasTransport then .error .noTransport
    else do
      let (points, specs) ← selectSpecs selections env points specs hookSelection layers
      let points ← installRingHooks points specs
      return {
        adapter := a.withSpecs env.cfg (specs.map BoundSpec.spec)
        cfg := env.cfg
        specs := specs
        points := points
        activeSpecs_eq := rfl
        modelCfg_eq := rfl }

/-! ### What the passes leave -/

/-- The spec is inside the layer range and on this rank. -/
def belongs (env : AttachEnv δ) (layers : Option (Int × Int)) (s : BoundSpec μ δ) : Bool :=
  (match layers with
    | some (start, stop) => hookBelongsToLayers start stop s
    | none => true) &&
  (hookBelongsToPpRank env.isPpFirst env.isPpLast s && hookBelongsToTpRank env.tpRank s)

/-- No two specs disagree about the hook point: the last spec that names it is of a selected kind,
and every spec of a selected kind that names it is inside the layer range and on this rank. -/
def Uncontested (allowed : List Int) (env : AttachEnv δ) (layers : Option (Int × Int))
    (specs : List (BoundSpec μ δ)) (m : μ) : Prop :=
  (naming m specs).getLast?.any (selects allowed env.cfg) = true ∧
    ∀ s ∈ naming m specs, selects allowed env.cfg s = true → belongs env layers s = true

instance (allowed : List Int) (env : AttachEnv δ) (layers : Option (Int × Int))
    (specs : List (BoundSpec μ δ)) (m : μ) : Decidable (Uncontested allowed env layers specs m) :=
  inferInstanceAs (Decidable (_ ∧ _))

variable {layers : Option (Int × Int)}

theorem narrows_filterByRange {specs kept : List (BoundSpec μ δ)} {points points' : μ → HookPoint}
    (h : filterByRange points specs layers = .ok (points', kept)) :
    Narrows (fun s => match layers with
      | some (start, stop) => hookBelongsToLayers start stop s
      | none => true) points specs points' kept := by
  cases layers with
  | none =>
    cases h
    exact narrows_refl points specs
  | some range => exact narrows_filterByLayers h

/-- **The passes over the specs**: which are left, and which hook points are left on. -/
theorem selectSpecs_spec [DecidableEq δ] {selections : Selections} {env : AttachEnv δ}
    {points points' : μ → HookPoint} {specs kept : List (BoundSpec μ δ)} {hookSelection : String}
    {allowed : List Int} (hallowed : resolveHookSelection selections hookSelection = .ok allowed)
    (h : selectSpecs selections env points specs hookSelection layers = .ok (points', kept)) :
    kept = specs.filter (fun s => selects allowed env.cfg s && belongs env layers s) ∧
      ∀ m, naming m specs ≠ [] →
        ((points' m).enabled = true ↔ Uncontested allowed env layers specs m) := by
  unfold selectSpecs applyHookSelection at h
  rw [hallowed, ok_bind] at h
  obtain ⟨⟨points₁, specs₁⟩, hsel, h⟩ := bind_eq_ok.mp h
  obtain ⟨points₀, hset, heq⟩ := bind_eq_ok.mp hsel
  cases heq
  obtain ⟨⟨points₂, specs₂⟩, hlayers, h⟩ := bind_eq_ok.mp h
  obtain ⟨⟨points₃, specs₃⟩, hpp, htp⟩ := bind_eq_ok.mp h
  have hn := (narrows_filterByRange hlayers).trans
    ((narrows_filterByPpRank hpp).trans (narrows_filterByTpRank htp))
  refine ⟨?_, fun m hm => ?_⟩
  · rw [hn.kept_eq, selectHookSpecs, filter_filter]
    simp only [belongs, Bool.and_comm, Bool.and_left_comm]
  · rw [hn.enabled, setEnabled_enabled hset, selectHookSpecs, naming_filter, Bool.and_eq_true,
      all_filter, all_eq_true]
    obtain ⟨s, hs⟩ : ∃ s, (naming m specs).getLast? = some s :=
      ⟨_, getLast?_eq_some_getLast hm⟩
    have hmem : s ∈ specs := (mem_naming.mp (mem_of_getLast? hs)).1
    simp only [hs, decide_eq_true_eq, mem_filter, hmem, true_and, Uncontested,
      Option.any_some]
    refine and_congr Iff.rfl (forall₂_congr fun s' _ => ?_)
    cases selects allowed env.cfg s' <;> simp [belongs]

/-! ### What binding leaves -/

omit [DecidableEq μ] in
theorem overBound_enabled {f : (μ → HookPoint) → μ → HookSpec δ → μ → HookPoint}
    (hf : ∀ points m spec m', (f points m spec m').enabled = (points m').enabled)
    (points : μ → HookPoint) (specs : List (BoundSpec μ δ)) (m : μ) :
    (overBound f points specs m).enabled = (points m).enabled := by
  induction specs generalizing points with
  | nil => rfl
  | cons s specs ih =>
    have hrest : overBound f points (s :: specs) =
        overBound f (match s.module with
          | none => points
          | some m => f points m s.spec) specs := rfl
    rw [hrest, ih]
    cases s.module with
    | none => rfl
    | some m₁ => exact hf points m₁ s.spec m

theorem clearPoint_enabled (points : μ → HookPoint) (m m' : μ) :
    (clearPoint points m m').enabled = (points m').enabled := by
  by_cases h : m' = m
  · subst h
    simp [clearPoint]
  · simp [clearPoint, h]

theorem bindPoint_enabled (points : μ → HookPoint) (m : μ) (spec : HookSpec δ) (m' : μ) :
    (bindPoint points m spec m').enabled = (points m').enabled := by
  unfold bindPoint
  by_cases hhead : spec.hookType ∈ headTypes
  · rw [if_pos hhead]
  · rw [if_neg hhead]
    by_cases h : m' = m
    · subst h
      simp
    · simp [h]

theorem bindPoint_ringHookType {points : μ → HookPoint} {m : μ} (spec : HookSpec δ) (m' : μ)
    (h : (points m').ringHookType.isSome) : (bindPoint points m spec m').ringHookType.isSome := by
  unfold bindPoint
  by_cases hhead : spec.hookType ∈ headTypes
  · rwa [if_pos hhead]
  · rw [if_neg hhead]
    by_cases hm : m' = m
    · subst hm
      simp
    · simpa [hm] using h

theorem overBound_bindPoint_isSome {points : μ → HookPoint} {m : μ}
    (h : (points m).ringHookType.isSome) (specs : List (BoundSpec μ δ)) :
    (overBound bindPoint points specs m).ringHookType.isSome := by
  induction specs generalizing points with
  | nil => exact h
  | cons s specs ih =>
    have hrest : overBound bindPoint points (s :: specs) =
        overBound bindPoint (match s.module with
          | none => points
          | some m => bindPoint points m s.spec) specs := rfl
    rw [hrest]
    cases s.module with
    | none => exact ih h
    | some m₁ => exact ih (bindPoint_ringHookType s.spec m h)

theorem overBound_bindPoint_of_mem {points : μ → HookPoint} {specs : List (BoundSpec μ δ)}
    {s : BoundSpec μ δ} {m : μ} (hs : s ∈ specs) (hm : s.module = some m)
    (hrow : s.spec.hookType ∉ headTypes) :
    (overBound bindPoint points specs m).ringHookType.isSome := by
  induction specs generalizing points with
  | nil => cases hs
  | cons s' specs ih =>
    rcases mem_cons.mp hs with rfl | hs
    · have hbound : (bindPoint points m s.spec m).ringHookType.isSome := by
        simp [bindPoint, hrow]
      have hrest : overBound bindPoint points (s :: specs) =
          overBound bindPoint (bindPoint points m s.spec) specs := by
        simp [overBound, hm]
      rw [hrest]
      exact overBound_bindPoint_isSome hbound specs
    · exact ih hs

variable {att : Attached μ δ ρ π κ}

theorem attachModel_spec [DecidableEq δ] {selections : Selections} {env : AttachEnv δ}
    {a : BackendAdapter δ ρ π κ} {points : μ → HookPoint} {specs : List (BoundSpec μ δ)}
    {hookSelection : String} {allowed : List Int}
    (hallowed : resolveHookSelection selections hookSelection = .ok allowed)
    (h : attachModel selections env a points specs hookSelection layers = .ok att) :
    att.cfg = env.cfg ∧
      att.specs = specs.filter (fun s => selects allowed env.cfg s && belongs env layers s) ∧
      (∀ m, naming m specs ≠ [] →
        ((att.points m).enabled = true ↔ Uncontested allowed env layers specs m)) ∧
      (∀ s ∈ att.specs, ∃ m, s.module = some m) ∧
      ∀ m, ∀ s ∈ naming m att.specs, s.spec.hookType ∉ headTypes →
        (att.points m).ringHookType.isSome := by
  unfold attachModel at h
  cases hback : env.storageBackend with
  | none | persistent =>
    rw [hback] at h
    cases h
  | inMemory =>
    simp only [hback] at h
    by_cases htransport : ¬ env.hasTransport = true
    · rw [if_pos htransport] at h
      cases h
    · rw [if_neg htransport] at h
      obtain ⟨⟨points₁, kept⟩, hsel, h⟩ := bind_eq_ok.mp h
      obtain ⟨points₂, hinstall, h⟩ := bind_eq_ok.mp h
      cases h
      obtain ⟨hkept, henabled⟩ := selectSpecs_spec hallowed hsel
      unfold installRingHooks at hinstall
      by_cases hbound : (kept.any fun s => s.module.isNone) = true
      · rw [if_pos hbound] at hinstall
        cases hinstall
      · rw [if_neg hbound] at hinstall
        cases hinstall
        refine ⟨rfl, hkept, fun m hm => ?_, fun s hs => ?_, fun m s hs hrow => ?_⟩
        · rw [overBound_enabled bindPoint_enabled,
            overBound_enabled fun points m _ m' => clearPoint_enabled points m m']
          exact henabled m hm
        · rw [any_eq_true] at hbound
          cases hmodule : s.module with
          | none => exact absurd ⟨s, hs, by simp [hmodule]⟩ hbound
          | some m => exact ⟨m, rfl⟩
        · obtain ⟨hs, hm⟩ := mem_naming.mp hs
          exact overBound_bindPoint_of_mem hs hm hrow

/-! ### Which hooks have a shape -/

/-- The size that the shape of the hook type needs is there: the vocabulary for the logits, the
score slots for a head. A type outside the catalog has no shape. -/
def Sized (cfg : ModelShapeConfig δ) (t : Int) : Prop :=
  t ∈ hookCatalog.map HookDef.id ∧ (t = hookTypeFinalLogits → 0 < cfg.vocabSize) ∧
    (t ∈ headTypes → 0 < cfg.headSlots)

instance (cfg : ModelShapeConfig δ) (t : Int) : Decidable (Sized cfg t) :=
  inferInstanceAs (Decidable (_ ∧ _ ∧ _))

theorem sized_of_plain {cfg : ModelShapeConfig δ} {t : Int}
    (h : t ∈ hookCatalog.map HookDef.id ∧ t ≠ hookTypeFinalLogits ∧ t ∉ headTypes) :
    Sized cfg t :=
  ⟨h.1, fun hlogits => absurd hlogits h.2.1, fun hhead => absurd hhead h.2.2⟩

theorem ne_nil_of_append_cons {α : Type} {l l' : List α} {x : α} : l ++ x :: l' ≠ [] := by simp

/-- **Whether a selected hook has a shape depends on its type and the geometry alone.** -/
theorem computeHookShape_ne_nil_iff {cfg : ModelShapeConfig δ} {t : Int}
    (h : t ∉ unavailable cfg) (batch qLen kvDim logitsToKeep : Nat) :
    computeHookShape t cfg batch qLen kvDim logitsToKeep ≠ [] ↔ Sized cfg t := by
  have hcase : ∀ {c : Prop} [Decidable c] {l l' : List Nat}, (c → (l ≠ [] ↔ Sized cfg t)) →
      (¬ c → (l' ≠ [] ↔ Sized cfg t)) → ((if c then l else l') ≠ [] ↔ Sized cfg t) :=
    fun hpos hneg => iteInduction (motive := fun l => l ≠ [] ↔ Sized cfg t) hpos hneg
  have hplain : ∀ {l l' : List Nat} {x : Nat},
      t ∈ hookCatalog.map HookDef.id ∧ t ≠ hookTypeFinalLogits ∧ t ∉ headTypes →
      (l ++ x :: l' ≠ [] ↔ Sized cfg t) :=
    fun h => iff_of_true ne_nil_of_append_cons (sized_of_plain h)
  have hhidden : ∀ t ∈ hiddenDimTypes,
      t ∈ hookCatalog.map HookDef.id ∧ t ≠ hookTypeFinalLogits ∧ t ∉ headTypes := by decide
  have hhead : ∀ t ∈ headTypes, t ∈ hookCatalog.map HookDef.id ∧ t ≠ hookTypeFinalLogits := by
    decide
  -- one case for each branch, in the order of the definition
  refine hcase (fun h1 => hplain (hhidden t h1)) fun h1 => ?_
  refine hcase (fun h2 => ?_) fun h2 => ?_
  · refine hcase (fun hslots => ?_) fun hslots => ?_
    · exact iff_of_true ne_nil_of_append_cons
        ⟨(hhead t h2).1, fun hlogits => absurd hlogits (hhead t h2).2, fun _ => hslots⟩
    · exact iff_of_false (by simp) fun hsized => hslots (hsized.2.2 h2)
  refine hcase (fun h3 => hplain (by subst h3; decide)) fun h3 => ?_
  refine hcase (fun h4 => hplain (by rcases h4 with rfl | rfl <;> decide)) fun h4 => ?_
  refine hcase (fun h5 => ?_) fun h5 => ?_
  · exact hcase (fun _ => hplain (l := []) (by subst h5; decide)) fun _ =>
      hplain (by subst h5; decide)
  refine hcase (fun h6 => hplain (by rcases h6 with rfl | rfl <;> decide)) fun h6 => ?_
  refine hcase (fun h7 => ?_) fun h7 => ?_
  · refine hcase (fun hzero => absurd ?_ h) fun _ => hplain (by subst h7; decide)
    simp [unavailable, hzero, h7]
  refine hcase (fun h8 => ?_) fun h8 => ?_
  · refine hcase (fun _ => hplain (by subst h8; decide)) fun hzero => absurd ?_ h
    simp [unavailable, Nat.eq_zero_of_not_pos hzero, h8]
  refine hcase (fun h9 => ?_) fun h9 => ?_
  · refine hcase (fun _ => hplain (by subst h9; decide)) fun hzero => absurd ?_ h
    simp [unavailable, Nat.eq_zero_of_not_pos hzero, h9]
  refine hcase (fun h10 => ?_) fun h10 => ?_
  · refine hcase (fun _ => hplain (by subst h10; decide)) fun hzero => absurd ?_ h
    simp [unavailable, Nat.eq_zero_of_not_pos hzero, h10]
  refine hcase (fun h11 => hplain (by subst h11; decide)) fun h11 => ?_
  refine hcase (fun h12 => ?_) fun h12 => ?_
  · refine hcase (fun hvocab => ?_) fun hvocab => ?_
    · refine iff_of_true ne_nil_of_append_cons ⟨by subst h12; decide, fun _ => hvocab, ?_⟩
      exact fun hhead => absurd hhead h2
    · exact iff_of_false (by simp) fun hsized => hvocab (hsized.2.1 h12)
  have hcatalog : ∀ t ∈ hookCatalog.map HookDef.id, t ∈ hiddenDimTypes ∨ t ∈ headTypes ∨
      t = hookTypeQ ∨ (t = hookTypeK ∨ t = hookTypeV) ∨ t = hookTypeZ ∨
      (t = hookTypeAttnScores ∨ t = hookTypePattern) ∨ t = hookTypeMlpPost ∨
      t = hookTypeRouterLogits ∨ t = hookTypeTopkIds ∨ t = hookTypeTopkWeights ∨
      t = hookTypeTokenIds ∨ t = hookTypeFinalLogits := by decide
  refine iff_of_false (by simp) fun hsized => ?_
  have := hcatalog t hsized.1
  simp [h1, h2, h3, h4, h5, h6, h7, h8, h9, h10, h11, h12] at this

/-! ### Hook points and metadata entries -/

/-- The entries that `pre_push_all_metas` appends for the active specs of a step. -/
def Attached.entries (att : Attached μ δ ρ π κ) (ctx : StepContext δ ρ π κ) :
    List (TensorMeta δ) :=
  att.adapter.activeSpecs.foldl (pushSpec att.cfg ctx.batch ctx.qLen ctx.kvDim ctx.logitsToKeep
    ctx.tokenIdsDtype ctx.actualQLen ctx.hookRows) []

variable {ctx : StepContext δ ρ π κ}

omit [DecidableEq μ] in
theorem Attached.mem_entries {e : TensorMeta δ} :
    e ∈ att.entries ctx ↔
      ∃ s ∈ att.specs, stepShape att.cfg ctx s.spec ≠ [] ∧ entryOf att.cfg ctx s.spec = e := by
  rw [Attached.entries, foldl_pushSpec, att.activeSpecs_eq, nil_append]
  simp only [firing, mem_map, mem_filter, decide_eq_true_eq]
  constructor
  · rintro ⟨spec, ⟨⟨s, hs, rfl⟩, hshape⟩, he⟩
    exact ⟨s, hs, hshape, he⟩
  · rintro ⟨s, hs, hshape, he⟩
    exact ⟨s.spec, ⟨⟨s, hs, rfl⟩, hshape⟩, he⟩

/-- After an attachment to the exposed specs, the hook points and the metadata entries of a step
are the same hooks. A head is launched by its hook point once the integration has configured it. -/
structure Paired (att : Attached μ δ ρ π κ) (exposed : List (BoundSpec μ δ))
    (ctx : StepContext δ ρ π κ) : Prop where
  enabled_iff : ∀ m, naming m exposed ≠ [] → ((att.points m).enabled = true ↔
    ∃ s ∈ naming m att.specs, stepShape att.cfg ctx s.spec ≠ [])
  entry_of_fires : ∀ m, naming m exposed ≠ [] → (att.points m).fires = true →
    ∃ s ∈ naming m att.specs, entryOf att.cfg ctx s.spec ∈ att.entries ctx
  fires_of_entry : ∀ e ∈ att.entries ctx, ∃ m, ∃ s ∈ naming m att.specs,
    entryOf att.cfg ctx s.spec = e ∧ (att.points m).enabled = true ∧
      (s.spec.hookType ∉ headTypes → (att.points m).fires = true)

/-- The two passes agree as soon as the switches are right. -/
theorem paired_of_enabled {exposed : List (BoundSpec μ δ)}
    (hsub : ∀ m, ∀ s ∈ naming m att.specs, naming m exposed ≠ [])
    (hbound : ∀ s ∈ att.specs, ∃ m, s.module = some m)
    (hrow : ∀ m, ∀ s ∈ naming m att.specs, s.spec.hookType ∉ headTypes →
      (att.points m).ringHookType.isSome)
    (henabled : ∀ m, naming m exposed ≠ [] → ((att.points m).enabled = true ↔
      ∃ s ∈ naming m att.specs, stepShape att.cfg ctx s.spec ≠ [])) :
    Paired att exposed ctx where
  enabled_iff := henabled
  entry_of_fires := by
    intro m hm hfires
    have hon : (att.points m).enabled = true := by
      rw [HookPoint.fires, Bool.and_eq_true] at hfires
      exact hfires.1
    obtain ⟨s, hs, hshape⟩ := (henabled m hm).mp hon
    exact ⟨s, hs, Attached.mem_entries.mpr ⟨s, (mem_naming.mp hs).1, hshape, rfl⟩⟩
  fires_of_entry := by
    intro e he
    obtain ⟨s, hs, hshape, rfl⟩ := Attached.mem_entries.mp he
    obtain ⟨m, hm⟩ := hbound s hs
    have hnamed : s ∈ naming m att.specs := mem_naming.mpr ⟨hs, hm⟩
    have hon := (henabled m (hsub m s hnamed)).mpr ⟨s, hnamed, hshape⟩
    refine ⟨m, s, hnamed, rfl, hon, fun hhead => ?_⟩
    simp [HookPoint.fires, hon, hrow m s hnamed hhead]

/-- A residual stream and the logits, each with a hook point of its own. -/
def smallModel : List (BoundSpec Bool Unit) :=
  [⟨{ hookType := 0, layerNo := 0 }, some false⟩, ⟨{ hookType := 19 }, some true⟩]

def smallEnv (vocabSize : Nat) : AttachEnv Unit where
  storageBackend := .inMemory
  hasTransport := true
  cfg := { hiddenDim := 4, numHeads := 2, numKvHeads := 2, headDim := 2, dtype := (),
           vocabSize := vocabSize, tpSize_pos := Nat.zero_lt_one }
  tpRank := 0
  isPpFirst := true
  isPpLast := true

def smallContext : StepContext Unit Unit Unit Unit :=
  { modelId := "m", flattened := true, reqIds := [()], tokenRanges := [(0, 3)], dim0Offsets := [0],
    kvOffsets := [0], qLen := 3, kvDim := 3, logitsToKeep := 1 }

/-- The attachment of the small model with everything selected. -/
def attachSmall (vocabSize : Nat) : Except AttachError (Attached Bool Unit Unit Unit Unit) :=
  attachModel hookSelections (smallEnv vocabSize) ⟨none, [], {}, rfl, rfl⟩ (fun _ => {}) smallModel
    "resid_pre,logits" none

theorem resolve_small : resolveHookSelection hookSelections "resid_pre,logits" = .ok [0, 19] := by
  decide +kernel

end Dmi.Adapter
