import Dmi.Adapter.Specs
import Dmi.Lib.Basic
import Dmi.P2PThread.PostProcessing

/-!
# Slices of batched tensors

A request's slice of a batched tensor is its row of the batch, of this the last rows, and of an
attention matrix the keys behind the padding.  Neither selecting nor narrowing fails where the
request lies in the batch and its keys end within the key dimension.  The tensors of a batched step
are attention matrices or have their rows in dimension one.
-/

namespace Dmi.P2PThread

open List View

/-- The last rows that a range of `len` tokens has of `n`. -/
def lastRows (len : Int) (n : Nat) : Nat × Nat := (n - min len.toNat n, min len.toNat n)

/-- The first narrowing: to the rows of the request. -/
def takeRows (isAttn : Bool) (eff : Int) (v : View) : Except String View :=
  let tokenDim := if isAttn ∧ 2 ≤ v.dim then v.dim - 2 else 0
  match v.size? tokenDim with
  | some delta => if eff < delta then v.narrow tokenDim (delta - eff) eff else .ok v
  | none => .ok v

/-- The second narrowing: to the keys of the request. -/
def takeKeys (isAttn : Bool) (endToken kvOffset : Int) (v : View) : Except String View :=
  if isAttn ∧ 2 ≤ v.dim then
    match v.size? (v.dim - 1) with
    | some size =>
      if 0 ≤ endToken ∧ endToken ≤ size then v.narrow (v.dim - 1) kvOffset endToken else .ok v
    | none => .ok v
  else .ok v

theorem sliceForRequest_eq (tensor : View) {i s e : Int} (isAttn : Bool) (kvOffset : Int)
    (hlt : s < e) :
    sliceForRequest tensor i s e isAttn kvOffset = do
      let v ← tensor.select i
      let v ← takeRows isAttn (e - s) v
      let v ← takeKeys isAttn e kvOffset v
      return some v := by
  have hkeys : ∀ v : View,
      (if isAttn ∧ 2 ≤ v.dim then
        match v.size? (v.dim - 1) with
        | some size =>
          if 0 ≤ e ∧ e ≤ size then do
            let v ← v.narrow (v.dim - 1) kvOffset e
            return some v
          else return some v
        | none => return some v
      else return some v) = (do
        let v ← takeKeys isAttn e kvOffset v
        return some v : Except String (Option View)) := by
    intro v
    unfold takeKeys
    split
    · split
      · split <;> rfl
      · rfl
    · rfl
  unfold sliceForRequest
  rw [if_neg (by omega)]
  dsimp only
  congr 1
  funext v
  unfold takeRows
  dsimp only
  cases v.size? (if isAttn = true ∧ 2 ≤ v.dim then v.dim - 2 else 0) with
  | none => exact hkeys v
  | some delta =>
    dsimp only
    by_cases hrows : e - s < delta
    · rw [if_pos hrows, if_pos hrows]
      congr 1
      funext w
      exact hkeys w
    · rw [if_neg hrows, if_neg hrows]
      exact hkeys v

variable {isAttn : Bool}

theorem takeRows_eq {v : View} {d n : Nat}
    (hdim : (if isAttn ∧ 2 ≤ v.dim then v.dim - 2 else 0) = d) (hd : v.ranges[d]? = some (0, n))
    {eff : Int} (heff : 0 < eff) :
    takeRows isAttn eff v = .ok { v with ranges := v.ranges.set d (lastRows eff n) } := by
  have hsize : v.size? d = some n := by rw [size?, hd, Option.map_some]
  unfold takeRows
  rw [hdim]
  dsimp only
  rw [hsize]
  dsimp only
  by_cases hlt : eff < n
  · have hrows : (0 + ((n : Int) - eff).toNat, eff.toNat) = lastRows eff n := by
      rw [lastRows, Prod.mk.injEq]
      constructor <;> omega
    rw [if_pos hlt, narrow_eq hd (by omega) (by omega) (by omega), hrows]
  · have hrows : lastRows eff n = (0, n) := by
      rw [lastRows, Prod.mk.injEq]
      constructor <;> omega
    obtain ⟨hlen, hget⟩ := List.getElem?_eq_some_iff.mp hd
    rw [if_neg hlt, hrows, ← hget, set_getElem_self]

variable {batch : Nat}

theorem sliceForRequest_rows {n : Nat} {tail : List Nat} {i s e kvOffset : Int} (hi : 0 ≤ i)
    (hbatch : i < batch) (hlt : s < e) :
    sliceForRequest (full (batch :: n :: tail)) i s e false kvOffset
      = .ok (some ⟨[i.toNat], lastRows (e - s) n :: tail.map fun n => (0, n)⟩) := by
  have hranges : (full (batch :: n :: tail)).ranges
      = (0, batch) :: (0, n) :: tail.map fun n => (0, n) := rfl
  rw [sliceForRequest_eq _ _ _ hlt, select_eq hranges hi hbatch, ok_bind,
    takeRows_eq (d := 0) (by simp) rfl (by omega), ok_bind, takeKeys, if_neg (by simp), ok_bind]
  simp [full]
  rfl

theorem sliceForRequest_attn {heads q kv : Nat} {i s e kvOffset : Int} (hi : 0 ≤ i)
    (hbatch : i < batch) (hlt : s < e) (he : 0 ≤ e) (hoffset : 0 ≤ kvOffset)
    (hkeys : kvOffset + e ≤ kv) :
    sliceForRequest (full [batch, heads, q, kv]) i s e true kvOffset
      = .ok (some ⟨[i.toNat],
          [(0, heads), lastRows (e - s) q, (kvOffset.toNat, e.toNat)]⟩) := by
  have hranges : (full [batch, heads, q, kv]).ranges
      = (0, batch) :: [(0, heads), (0, q), (0, kv)] := rfl
  have htake : takeKeys true e kvOffset
      ⟨[i.toNat], [(0, heads), lastRows (e - s) q, (0, kv)]⟩
      = .ok ⟨[i.toNat], [(0, heads), lastRows (e - s) q, (kvOffset.toNat, e.toNat)]⟩ := by
    have hnarrow := narrow_eq (v := ⟨[i.toNat], [(0, heads), lastRows (e - s) q, (0, kv)]⟩)
      (d := 2) rfl hoffset he hkeys
    have hsize : 0 ≤ e ∧ e ≤ kv := ⟨he, by omega⟩
    simpa [takeKeys, dim, size?, hsize] using hnarrow
  rw [sliceForRequest_eq _ _ _ hlt, select_eq hranges hi hbatch, ok_bind,
    takeRows_eq (d := 1) (by simp [dim]) rfl (by omega), ok_bind]
  simp only [full, nil_append, Nat.zero_add, set_cons_succ, set_cons_zero]
  rw [htake]
  rfl

/-! ### The tensors of a batched step -/

/-- The shapes of a batched step: attention matrices, and tensors with their rows in dimension one.
A hook may publish nothing. -/
inductive BatchedShape (batch q kv : Nat) : Bool → List Nat → Prop where
  | nothing (isAttn : Bool) : BatchedShape batch q kv isAttn []
  | attn (heads : Nat) : BatchedShape batch q kv true [batch, heads, q, kv]
  | rows (n : Nat) (tail : List Nat) : BatchedShape batch q kv false (batch :: n :: tail)

theorem batchedShape_computeHookShape {δ : Type} (hookType : Int) (cfg : Adapter.ModelShapeConfig δ)
    (q kv keep : Nat) (hbatch : 0 < batch) :
    BatchedShape batch q kv (isAttnWeightMatrix hookType)
      (Adapter.computeHookShape hookType cfg batch q kv keep) := by
  have hrows : isAttnWeightMatrix hookType = false → ∀ n tail,
      BatchedShape batch q kv (isAttnWeightMatrix hookType) (batch :: n :: tail) := by
    intro h n tail
    rw [h]
    exact .rows n tail
  have hopt : isAttnWeightMatrix hookType = false → ∀ (p : Prop) [Decidable p] n tail,
      BatchedShape batch q kv (isAttnWeightMatrix hookType)
        (if p then batch :: n :: tail else []) := by
    intro h p _ n tail
    by_cases hp : p
    · rw [if_pos hp]
      exact hrows h n tail
    · rw [if_neg hp]
      exact .nothing _
  have hhidden : ∀ t ∈ Adapter.hiddenDimTypes, isAttnWeightMatrix t = false := by decide
  have hhead : ∀ t ∈ Adapter.headTypes, isAttnWeightMatrix t = false := by decide
  unfold Adapter.computeHookShape
  dsimp only
  rw [if_pos hbatch, if_neg (show ¬ batch = 0 by omega)]
  -- one case for each branch, in the order of the definition
  refine iteInduction (fun h => hrows (hhidden _ h) _ _) fun _ => ?_
  refine iteInduction (fun h => hopt (hhead _ h) _ _ _) fun _ => ?_
  refine iteInduction (fun h => hrows (h ▸ rfl) _ _) fun _ => ?_
  refine iteInduction (fun h => hrows (by rcases h with rfl | rfl <;> rfl) _ _) fun _ => ?_
  refine iteInduction (fun h => hrows (h ▸ rfl) _ _) fun _ => ?_
  refine iteInduction (fun h => ?_) fun _ => ?_
  · have hattn : isAttnWeightMatrix hookType = true := by rcases h with rfl | rfl <;> rfl
    rw [hattn]
    exact .attn _
  refine iteInduction (fun h => ?_) fun _ => ?_
  · rw [← ite_not]
    exact hopt (h ▸ rfl) _ _ _
  refine iteInduction (fun h => hopt (h ▸ rfl) _ _ _) fun _ => ?_
  refine iteInduction (fun h => hopt (h ▸ rfl) _ _ _) fun _ => ?_
  refine iteInduction (fun h => hopt (h ▸ rfl) _ _ _) fun _ => ?_
  refine iteInduction (fun h => hrows (h ▸ rfl) _ _) fun _ => ?_
  exact iteInduction (fun h => hopt (h ▸ rfl) _ _ _) fun _ => .nothing _

variable {shape : List Nat}

theorem BatchedShape.size {q kv : Nat} (h : BatchedShape batch q kv isAttn shape)
    (hne : shape ≠ []) : (full shape).size? 0 = some batch := by
  cases h with
  | nothing => exact absurd rfl hne
  | attn heads | rows n tail => rfl

/-- The request lies in the batch, and its keys end within the key dimension. -/
def RequestFits (batch kvDim : Nat) (req : RequestMeta) : Prop :=
  req.startToken < req.endToken →
    (0 ≤ req.dim0Offset ∧ req.dim0Offset < batch) ∧ 0 ≤ req.endToken ∧
    0 ≤ req.kvOffset ∧ req.kvOffset + req.endToken ≤ kvDim

/-- A request that fits has a slice of every tensor of the step, unless it has no tokens. -/
theorem sliceForRequest_of_fits {q kv : Nat} (hshape : BatchedShape batch q kv isAttn shape)
    (hne : shape ≠ []) {req : RequestMeta} (hfits : RequestFits batch kv req) :
    sliceForRequest (full shape) req.dim0Offset req.startToken req.endToken isAttn
        req.kvOffset = .ok none ∨
      ∃ v : View, 0 < v.dim ∧
        sliceForRequest (full shape) req.dim0Offset req.startToken req.endToken isAttn
          req.kvOffset = .ok (some v) := by
  by_cases hlt : req.startToken < req.endToken
  · right
    obtain ⟨⟨hi, hbatch⟩, hend, hoffset, hkeys⟩ := hfits hlt
    cases hshape with
    | nothing => exact absurd rfl hne
    | attn heads =>
      exact ⟨_, by simp [dim], sliceForRequest_attn hi hbatch hlt hend hoffset hkeys⟩
    | rows n tail => exact ⟨_, by simp [dim], sliceForRequest_rows hi hbatch hlt⟩
  · left
    rw [sliceForRequest, if_pos (by omega)]

/-- **Cutting a request that fits raises nothing**, whatever the hook. -/
theorem cutRequest_ne_error {q kv : Nat} {hookType : Int}
    (hshape : BatchedShape batch q kv (isAttnWeightMatrix hookType) shape) (hne : shape ≠ [])
    {req : RequestMeta} (hfits : RequestFits batch kv req) (j : Nat) (e : String) :
    cutRequest false hookType (full shape) req j ≠ .error e := by
  unfold cutRequest
  rw [if_neg Bool.false_ne_true, hshape.size hne]
  dsimp only
  split
  · exact Cut.noConfusion
  · rcases sliceForRequest_of_fits hshape hne hfits with hnone | ⟨v, hdim, hsome⟩
    · rw [hnone]
      exact Cut.noConfusion
    · rw [hsome]
      dsimp only
      split
      · obtain ⟨r, hr⟩ : ∃ r, v.ranges[0]? = some r := ⟨_, getElem?_eq_getElem hdim⟩
        rw [size?, hr, Option.map_some]
        exact Cut.noConfusion
      · exact Cut.noConfusion

end Dmi.P2PThread
