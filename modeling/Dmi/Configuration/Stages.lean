import Dmi.Lib.Basic
import Mathlib.Algebra.Ring.Int.Defs
import Mathlib.Algebra.Ring.Nat

/-!
# The layers of the pipeline stages

The estimator gives each pipeline stage a range of layers, by counts that the workload names or by
default ones, which add up to the layers of the model.  That the counts of a workload add up is
checked only where there is more than one stage (`stageLayers_cover_iff`).
-/

namespace Dmi.Configuration

open List

/-- What the checks of a workload read; its rate of steps is left out. -/
structure Workload where
  batchSize : Int := 8
  promptTokens : Int := 2048
  decodeTokens : Int := 256
  tensorParallelSize : Int := 1
  pipelineParallelSize : Int := 1
  cacheMaxLen : Option Int := none
  ppLayerCounts : Option (List Int) := none

/-- The check that a field is not below its least value. -/
def atLeast (name : String) (least value : Int) : Option String :=
  if value < least then some (name ++ " must be >= " ++ toString least ++ ", got " ++
    toString value ++ ".") else none

/-- `repr` of a tuple. -/
def tupleRepr : List Int → String
  | [x] => "(" ++ toString x ++ ",)"
  | xs => "(" ++ ", ".intercalate (xs.map toString) ++ ")"

def checkLayerCounts (pipelineParallelSize : Int) (counts : List Int) : Option String :=
  if counts.any (· < 0) then
    some ("pp_layer_counts must be a tuple of non-negative integers, got " ++ tupleRepr counts ++
      ".")
  else if (counts.length : Int) ≠ pipelineParallelSize then
    some ("pp_layer_counts has " ++ toString counts.length ++
      " entries but pipeline_parallel_size is " ++ toString pipelineParallelSize ++ ".")
  else none

/-- `Workload.__post_init__`: the error that it raises. -/
def Workload.postInit (w : Workload) : Option String :=
  (w.ppLayerCounts.bind (checkLayerCounts w.pipelineParallelSize)).or <|
  (atLeast "batch_size" 1 w.batchSize).or <|
  (atLeast "prompt_tokens" 1 w.promptTokens).or <|
  (atLeast "decode_tokens" 0 w.decodeTokens).or <|
  (atLeast "tensor_parallel_size" 1 w.tensorParallelSize).or <|
  (atLeast "pipeline_parallel_size" 1 w.pipelineParallelSize).or <|
  w.cacheMaxLen.bind (atLeast "cache_max_len" 1)

/-- The check of the counts in `estimate_config`. -/
def Workload.layerCountsError (w : Workload) (numLayers : Nat) : Option String :=
  if 1 < w.pipelineParallelSize then
    w.ppLayerCounts.bind fun counts =>
      if counts.sum ≠ numLayers then
        some ("pp_layer_counts sums to " ++ toString counts.sum ++ " but the model has " ++
          toString numLayers ++ " layers.")
      else none
  else none

/-- `_vllm_default_partitions`: the remainder goes backward from the stage before the last. -/
def vllmDefaultPartitions (numLayers ppSize : Nat) : List Nat :=
  (range' 2 (numLayers % ppSize)).foldl (fun partitions i => partitions.modify (ppSize - i) (· + 1))
    (replicate ppSize (numLayers / ppSize))

/-- `_stage_layers`. -/
def stageLayers (numLayers ppSize stage : Nat) (explicit : Option (List Int)) : List Nat :=
  let partitions := match explicit with
    | some counts => counts.map Int.toNat
    | none => vllmDefaultPartitions numLayers ppSize
  range' (partitions.take stage).sum (partitions.getD stage 0)

/-! ### Consecutive ranges -/

theorem flatMap_range'_take_sum (l : List Nat) (start : Nat) :
    (range l.length).flatMap (fun i => range' (start + (l.take i).sum) (l.getD i 0)) =
      range' start l.sum := by
  induction l generalizing start with
  | nil => rfl
  | cons n l ih =>
    have htail := ih (start + n)
    rw [length_cons, range_succ_eq_map, flatMap_cons, flatMap_map, sum_cons, ← range'_append_1,
      ← htail]
    simp only [take_zero, sum_nil, Nat.add_zero, getD_cons_zero, take_succ_cons, sum_cons,
      getD_cons_succ, Nat.add_assoc]

theorem sum_modify_succ {l : List Nat} {k : Nat} (hk : k < l.length) :
    (l.modify k (· + 1)).sum = l.sum + 1 := by
  induction l generalizing k with
  | nil => exact absurd hk (Nat.not_lt_zero k)
  | cons n l ih =>
    cases k with
    | zero =>
      rw [modify_zero_cons, sum_cons, sum_cons]
      omega
    | succ k =>
      rw [modify_succ_cons, sum_cons, sum_cons, ih (Nat.lt_of_succ_lt_succ hk)]
      omega

theorem vllmDefaultPartitions_spec {ppSize : Nat} (hpp : 0 < ppSize) (numLayers : Nat) :
    (vllmDefaultPartitions numLayers ppSize).length = ppSize ∧
      (vllmDefaultPartitions numLayers ppSize).sum = numLayers := by
  have hfold : ∀ (is : List Nat) (l : List Nat), (∀ i ∈ is, 0 < i ∧ i ≤ ppSize) →
      l.length = ppSize →
      (is.foldl (fun l i => l.modify (ppSize - i) (· + 1)) l).length = ppSize ∧
        (is.foldl (fun l i => l.modify (ppSize - i) (· + 1)) l).sum = l.sum + is.length := by
    intro is
    induction is with
    | nil => exact fun l _ hl => ⟨hl, rfl⟩
    | cons i is ih =>
      intro l his hl
      obtain ⟨⟨hi, hle⟩, htail⟩ := forall_mem_cons.mp his
      have hrest := ih (l.modify (ppSize - i) (· + 1)) htail (by rw [length_modify, hl])
      rw [sum_modify_succ (by omega)] at hrest
      rw [foldl_cons, length_cons]
      exact ⟨hrest.1, by omega⟩
  have hmod := Nat.mod_lt numLayers hpp
  have hspec := hfold (range' 2 (numLayers % ppSize)) (replicate ppSize (numLayers / ppSize))
    (fun i hi => by
      have := mem_range'_1.mp hi
      omega) (length_replicate ..)
  rw [length_range', sum_replicate_nat, Nat.div_add_mod] at hspec
  exact hspec

/-- The ranges of counts that add up to `n` are those of `n` layers. -/
theorem flatMap_stages {l : List Nat} {ppSize : Nat} (hlen : l.length = ppSize) :
    (range ppSize).flatMap (fun stage => range' (l.take stage).sum (l.getD stage 0)) =
      range l.sum := by
  have hall := flatMap_range'_take_sum l 0
  simp only [Nat.zero_add] at hall
  rw [← hlen, hall, range_eq_range']

theorem sum_map_toNat {counts : List Int} (h : ∀ c ∈ counts, 0 ≤ c) :
    ((counts.map Int.toNat).sum : Int) = counts.sum := by
  induction counts with
  | nil => rfl
  | cons c counts ih =>
    obtain ⟨hc, htail⟩ := forall_mem_cons.mp h
    rw [map_cons, sum_cons, sum_cons, ← ih htail]
    omega

theorem checkLayerCounts_eq_none {ppSize : Int} {counts : List Int}
    (h : checkLayerCounts ppSize counts = none) :
    (∀ c ∈ counts, 0 ≤ c) ∧ (counts.length : Int) = ppSize := by
  unfold checkLayerCounts at h
  split at h
  · cases h
  next hany =>
    split at h
    · cases h
    next hlen =>
      refine ⟨fun c hc => Int.not_lt.mp fun hneg => hany ?_, not_not.mp hlen⟩
      exact any_eq_true.mpr ⟨c, hc, decide_eq_true hneg⟩

/-- **The ranges of the stages are the layers of the model, in order**, exactly if the workload
names no counts, has several stages, or names the number of layers for its only one. -/
theorem stageLayers_cover_iff {w : Workload} {numLayers : Nat} (hw : w.postInit = none)
    (hcounts : w.layerCountsError numLayers = none) :
    (range w.pipelineParallelSize.toNat).flatMap (fun stage =>
        stageLayers numLayers w.pipelineParallelSize.toNat stage w.ppLayerCounts) =
      range numLayers ↔
    w.ppLayerCounts = none ∨ 1 < w.pipelineParallelSize ∨
      w.ppLayerCounts = some [(numLayers : Int)] := by
  simp only [Workload.postInit, Option.or_eq_none_iff, atLeast, ite_eq_right_iff, reduceCtorEq,
    imp_false, Int.not_lt] at hw
  obtain ⟨hnamed, -, -, -, -, hpp, -⟩ := hw
  unfold Workload.layerCountsError at hcounts
  unfold stageLayers
  cases hcase : w.ppLayerCounts with
  | none =>
    obtain ⟨hlen, hsum⟩ := vllmDefaultPartitions_spec
      (show 0 < w.pipelineParallelSize.toNat by omega) numLayers
    rw [flatMap_stages hlen, hsum]
    exact ⟨fun _ => .inl rfl, fun _ => rfl⟩
  | some counts =>
    rw [hcase] at hnamed hcounts
    obtain ⟨hnonneg, hlen⟩ := checkLayerCounts_eq_none hnamed
    have hsum := sum_map_toNat hnonneg
    have hrange : ∀ a b, range a = range b ↔ a = b := by
      refine fun a b => ⟨fun h => ?_, congrArg range⟩
      simpa using congrArg length h
    dsimp only
    rw [flatMap_stages (by rw [length_map]; omega), hrange]
    by_cases hone : 1 < w.pipelineParallelSize
    · rw [if_pos hone, Option.bind_some, ite_eq_right_iff] at hcounts
      have hall : counts.sum = numLayers := by
        by_contra hne
        cases hcounts hne
      exact ⟨fun _ => .inr (.inl hone), fun _ => by omega⟩
    · obtain ⟨c, rfl⟩ := length_eq_one_iff.mp (show counts.length = 1 by omega)
      simp only [sum_cons, sum_nil, Int.add_zero] at hsum
      simp only [reduceCtorEq, hone, false_or, Option.some.injEq, cons.injEq, and_true]
      omega

theorem stageLayers_cover_default :
    (range 3).flatMap (fun stage => stageLayers 4 3 stage none) = range 4 :=
  (stageLayers_cover_iff (w := { pipelineParallelSize := 3 }) rfl rfl).mpr (.inl rfl)

/-- One stage with three of four layers is accepted. -/
theorem stageLayers_miss_a_layer :
    let w : Workload := { ppLayerCounts := some [3] }
    w.postInit = none ∧ w.layerCountsError 4 = none ∧
      stageLayers 4 1 0 w.ppLayerCounts = [0, 1, 2] := by
  decide

end Dmi.Configuration
