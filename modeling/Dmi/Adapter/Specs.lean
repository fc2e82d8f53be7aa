import Mathlib.Algebra.BigOperators.Group.List.Basic

/-! # Hook specifications and analytical tensor shapes

A model describes its hooks by specs. The shape of the tensor that a hook publishes in a step
follows from the hook's type, the model's geometry and the step's dimensions alone. Element types
are those of the tensor library: a type variable with the size of an element.
-/

namespace Dmi.Adapter

/-! ### Catalog -/

inductive ShapeClass where
  | hidden | qkvQ | qkvKv | qkvZ | attnWt | mlpPost | tokenIds | logits
  | routerLogits | topkIds | topkWeights | headScores
deriving DecidableEq, Repr

/-- `HOOK_DEFS`: the id and the shape class of every registered hook type. -/
def hookDefs : List (Int × ShapeClass) :=
  [(0, .hidden), (1, .hidden), (2, .hidden), (3, .hidden), (4, .attnWt), (5, .attnWt), (6, .qkvQ),
    (7, .qkvKv), (8, .qkvKv), (9, .qkvZ), (11, .hidden), (12, .hidden), (13, .hidden),
    (20, .mlpPost), (14, .hidden), (15, .hidden), (16, .hidden), (17, .hidden), (18, .tokenIds),
    (19, .logits), (21, .routerLogits), (22, .topkIds), (23, .topkWeights), (24, .headScores),
    (25, .headScores)]

def typesOf (c : ShapeClass) : List Int := (hookDefs.filter fun d => d.2 = c).map Prod.fst

def hiddenDimTypes : List Int := typesOf .hidden
def headTypes : List Int := typesOf .headScores

def hookTypeAttnScores : Int := 4
def hookTypePattern : Int := 5
def hookTypeQ : Int := 6
def hookTypeK : Int := 7
def hookTypeV : Int := 8
def hookTypeZ : Int := 9
def hookTypeTokenIds : Int := 18
def hookTypeFinalLogits : Int := 19
def hookTypeMlpPost : Int := 20
def hookTypeRouterLogits : Int := 21
def hookTypeTopkIds : Int := 22
def hookTypeTopkWeights : Int := 23

/-! ### Specs and shapes -/

/-- The geometry of the model; attachment makes the tensor-parallel size at least one. -/
structure ModelShapeConfig (δ : Type) where
  hiddenDim : Nat
  numHeads : Nat
  numKvHeads : Nat
  headDim : Nat
  dtype : δ
  vocabSize : Nat := 0
  intermediateDim : Nat := 0
  numExperts : Nat := 0
  topK : Nat := 0
  tpSize : Nat := 1
  headSlots : Nat := 0
  tpSize_pos : 0 < tpSize := by decide

structure HookSpec (δ : Type) where
  hookType : Int
  layerNo : Int := -1
  dtype : Option δ := none
  allowTokenCntMismatch : Bool := false
  dim0IsActualTokens : Bool := false
deriving DecidableEq

/-- `(x + a - 1) & ~(a - 1)` for a power of two `a`. -/
def alignUpPy (x a : Nat) : Nat := (x + a - 1) / a * a

theorem alignUpPy_mono {x y : Nat} (a : Nat) (h : x ≤ y) : alignUpPy x a ≤ alignUpPy y a := by
  have hle : x + a - 1 ≤ y + a - 1 := by omega
  exact Nat.mul_le_mul_right a (Nat.div_le_div_right hle)

/-- The shape of the tensor of one hook; the empty list means that the hook publishes nothing. -/
def computeHookShape {δ : Type} (hookType : Int) (cfg : ModelShapeConfig δ)
    (batch qLen kvDim logitsToKeep : Nat) : List Nat :=
  -- without a batch dimension the rows of all requests are packed along dimension 0
  let b := if 0 < batch then [batch] else []
  let tp := cfg.tpSize
  if hookType ∈ hiddenDimTypes then b ++ [qLen, cfg.hiddenDim]
  else if hookType ∈ headTypes then
    if 0 < cfg.headSlots then b ++ [qLen, cfg.headSlots] else []
  else if hookType = hookTypeQ then b ++ [qLen, cfg.numHeads / tp, cfg.headDim]
  else if hookType = hookTypeK ∨ hookType = hookTypeV then
    b ++ [qLen, max 1 (cfg.numKvHeads / tp), cfg.headDim]
  else if hookType = hookTypeZ then
    if batch = 0 then [qLen, cfg.numHeads / tp * cfg.headDim]
    else b ++ [qLen, cfg.numHeads / tp, cfg.headDim]
  else if hookType = hookTypeAttnScores ∨ hookType = hookTypePattern then
    b ++ [cfg.numHeads / tp, qLen, kvDim]
  else if hookType = hookTypeMlpPost then
    if cfg.intermediateDim = 0 then [] else b ++ [qLen, cfg.intermediateDim / tp]
  else if hookType = hookTypeRouterLogits then
    if 0 < cfg.numExperts then b ++ [qLen, cfg.numExperts] else []
  else if hookType = hookTypeTopkIds then
    if 0 < cfg.topK then b ++ [qLen, cfg.topK] else []
  else if hookType = hookTypeTopkWeights then
    if 0 < cfg.topK then b ++ [qLen, cfg.topK] else []
  else if hookType = hookTypeTokenIds then b ++ [qLen]
  else if hookType = hookTypeFinalLogits then
    let logitsQ :=
      if 0 < batch then if 0 < logitsToKeep then min qLen logitsToKeep else qLen
      else if 0 < logitsToKeep then logitsToKeep else qLen
    if 0 < cfg.vocabSize then b ++ [logitsQ, cfg.vocabSize] else []
  else []

/-- Token ids are published by every step, one for each position. -/
theorem computeHookShape_tokenIds {δ : Type} (cfg : ModelShapeConfig δ)
    (batch qLen kvDim logitsToKeep : Nat) :
    computeHookShape hookTypeTokenIds cfg batch qLen kvDim logitsToKeep
      = (if 0 < batch then [batch] else []) ++ [qLen] := by
  have hhidden : hookTypeTokenIds ∉ hiddenDimTypes := by decide
  have hhead : hookTypeTokenIds ∉ headTypes := by decide
  unfold computeHookShape
  dsimp only
  rw [if_neg hhidden, if_neg hhead]
  rfl

end Dmi.Adapter
