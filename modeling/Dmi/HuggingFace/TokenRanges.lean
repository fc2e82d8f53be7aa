import Dmi.HuggingFace.StepContext
import Dmi.Lib.Lts

/-!
# Token ranges over a sequence of forward calls

The ranges that a request id gets from call to call follow one another without a gap: a new batch
has ids that were never given before, and every accepted call begins where the last one ended.
`Tracks` is the invariant, `tracks_step` its step.
-/

namespace Dmi.HuggingFace

open HuggingFaceAdapter List

variable {δ κ : Type}

/-! ### Request ids -/

theorem colon_notMem_toDigits (n : Nat) : ':' ∉ Nat.toDigits 10 n := by
  intro h
  exact absurd (Nat.isDigit_of_mem_toDigits (by decide) (by decide) h) (by decide)

theorem toDigits_inj {m n : Nat} (h : Nat.toDigits 10 m = Nat.toDigits 10 n) : m = n := by
  rw [← @Nat.ofDigitChars_ten_toDigits m, h, Nat.ofDigitChars_ten_toDigits]

theorem requestId_inj {g g' i i' : Nat} (h : requestId g i = requestId g' i') :
    g = g' ∧ i = i' := by
  have hsplit := (append_cons_inj_of_notMem (colon_notMem_toDigits g)
    (colon_notMem_toDigits i)).mp (String.ofList_inj.mp h)
  exact ⟨toDigits_inj hsplit.1, toDigits_inj hsplit.2.2⟩

/-! ### Contiguous ranges -/

/-- The ranges lead from `s` to `e`, each one beginning where the one before it ends. -/
def Contiguous (s : Int) : List (Int × Int) → Int → Prop
  | [], e => s = e
  | (x, y) :: ranges, e => x = s ∧ Contiguous y ranges e

theorem Contiguous.concat {s e d : Int} {ranges : List (Int × Int)} (h : Contiguous s ranges e) :
    Contiguous s (ranges ++ [(e, d)]) d := by
  induction ranges generalizing s with
  | nil => exact ⟨h.symm, rfl⟩
  | cons r ranges ih => exact ⟨h.1, ih h.2⟩

/-! ### Runs -/

/-- An accepted call: the adapter before and after it, and the step that it built. -/
structure Forward (δ κ : Type) where
  before : HuggingFaceAdapter
  inputs : ModelInputs δ
  after : HuggingFaceAdapter
  step : BuiltStep δ κ

/-- The adapter and the calls that it has accepted. -/
structure HfRun (δ κ : Type) where
  adapter : HuggingFaceAdapter
  forwards : List (Forward δ κ) := []

/-- A forward call, or another adapter of the engine that claims a group. -/
inductive HfAct (δ : Type) where
  | forward (inputs : ModelInputs δ)
  | claimGroup

def HfRun.call (r : HfRun δ κ) (inputs : ModelInputs δ) : HfRun δ κ :=
  match r.adapter.buildStepContext inputs with
  | (a, none) => { r with adapter := a }
  | (a, some step) => ⟨a, r.forwards ++ [⟨r.adapter, inputs, a, step⟩]⟩

def hfStep (r : HfRun δ κ) : HfAct δ → Option (HfRun δ κ)
  | .forward inputs => some (r.call inputs)
  | .claimGroup => some { r with
      adapter := { r.adapter with autoBatchGroupId := r.adapter.autoBatchGroupId + 1 } }

/-- The ranges that a call gives to a request id. -/
def Forward.rangesOf (f : Forward δ κ) (rid : String) : List (Int × Int) :=
  (f.step.context.reqIds.zip f.step.context.tokenRanges).filterMap fun x =>
    if x.1 = rid then some x.2 else none

/-- The ranges that a request id has got so far. -/
def HfRun.rangesOf (r : HfRun δ κ) (rid : String) : List (Int × Int) :=
  r.forwards.flatMap fun f => f.rangesOf rid

/-! ### The requests of a step -/

section

variable {a : HuggingFaceAdapter} {ids : InputIds δ} {mask : Option MaskTensor} {prefill : Bool}
  {requests : List BatchRequest} {tokens : List (BatchRequest × Int)}

theorem map_latch {β : Type} (f : BatchRequest → β)
    (hf : ∀ (r : BatchRequest) (b : Bool), f { r with finished := b } = f r)
    (hlen : requests.length = ids.rows.length) :
    (a.latch ids requests).map f = requests.map f := by
  unfold latch
  split
  · have hfst : ∀ rows : List (List Int),
        (requests.zip rows).map (Function.uncurry fun r _ => f r)
          = ((requests.zip rows).map Prod.fst).map f := by
      intro rows
      rw [map_map]
      rfl
    rw [map_zipWith]
    simp only [hf]
    rw [← map_uncurry_zip_eq_zipWith, hfst, map_fst_zip hlen.le]
  · rfl

theorem map_stepTokens {β : Type} (f : BatchRequest → β)
    (hf : ∀ (r : BatchRequest) (b : Bool), f { r with finished := b } = f r)
    (hlen : requests.length = ids.rows.length)
    (h : a.stepTokens prefill ids mask requests = some tokens) :
    (tokens.map fun t => f t.1) = requests.map f := by
  unfold stepTokens at h
  split at h
  · split at h
    · cases h
    · rename_i lengths hlengths
      split at h
      · cases h
      · cases h
        have hle : requests.length
            ≤ (lengths.map fun delta => if delta < 0 then 0 else delta).length := by
          rw [length_map]
          omega
        rw [show (fun t : BatchRequest × Int => f t.1) = f ∘ Prod.fst from rfl, ← map_map,
          map_fst_zip hle]
  · cases h
    rw [map_map]
    exact map_latch f hf hlen

/-- The ranges of a step that go to a request id. -/
def rangesIn (tokens : List (BatchRequest × Int)) (rid : String) : List (Int × Int) :=
  tokens.filterMap fun t => if t.1.requestId = rid then some (t.1.range t.2) else none

theorem rangesIn_of_notMem {rid : String} (h : rid ∉ tokens.map fun t => t.1.requestId) :
    rangesIn tokens rid = [] := by
  unfold rangesIn
  rw [filterMap_eq_nil_iff]
  intro t ht
  rw [if_neg]
  rintro rfl
  exact h (mem_map_of_mem ht)

theorem rangesIn_of_mem (hnodup : (tokens.map fun t => t.1.requestId).Nodup)
    {t : BatchRequest × Int} (ht : t ∈ tokens) :
    rangesIn tokens t.1.requestId = [t.1.range t.2] := by
  induction tokens with
  | nil => cases ht
  | cons u tokens ih =>
    rw [map_cons, nodup_cons] at hnodup
    rw [rangesIn, filterMap_cons]
    rcases mem_cons.mp ht with rfl | hmem
    · rw [if_pos rfl]
      rw [show tokens.filterMap _ = [] from rangesIn_of_notMem hnodup.1]
    · have hne : u.1.requestId ≠ t.1.requestId := by
        intro heq
        exact hnodup.1 (heq ▸ mem_map_of_mem hmem)
      rw [if_neg hne]
      exact ih hnodup.2 hmem

end

/-! ### Contiguity -/

/-- What the adapter knows about the ranges given so far: groups that are not claimed have none, and
the requests of the batch are where their ranges end. -/
structure Tracks (a : HuggingFaceAdapter) (ranges : String → List (Int × Int)) : Prop where
  unclaimed : ∀ g i, a.autoBatchGroupId ≤ g → ranges (requestId g i) = []
  contiguous : ∀ rid, ∃ e, Contiguous 0 (ranges rid) e
  nodup : ∀ requests, a.batch = some requests → (requests.map (·.requestId)).Nodup
  claimed : ∀ requests, a.batch = some requests → ∀ r ∈ requests,
    ∃ g i, r.requestId = requestId g i ∧ g < a.autoBatchGroupId
  ends : ∀ requests, a.batch = some requests → ∀ r ∈ requests,
    Contiguous 0 (ranges r.requestId) r.start

namespace Tracks

variable {a : HuggingFaceAdapter} {ranges : String → List (Int × Int)}

section

variable (h : Tracks a ranges)
include h

theorem reset (batchSize : Nat) : Tracks (a.reset batchSize) ranges where
  unclaimed g i hg := h.unclaimed g i (Nat.le_of_succ_le hg)
  contiguous := h.contiguous
  nodup requests hbatch := by
    cases hbatch
    rw [map_map, map_map]
    exact nodup_range.map fun i j hij => (requestId_inj hij).2
  claimed requests hbatch r hr := by
    cases hbatch
    obtain ⟨id, hid, rfl⟩ := mem_map.mp hr
    obtain ⟨i, -, rfl⟩ := mem_map.mp hid
    exact ⟨a.autoBatchGroupId, i, rfl, Nat.lt_succ_self _⟩
  ends requests hbatch r hr := by
    cases hbatch
    obtain ⟨id, hid, rfl⟩ := mem_map.mp hr
    obtain ⟨i, -, rfl⟩ := mem_map.mp hid
    rw [h.unclaimed _ i le_rfl]
    exact rfl

theorem resetIfNeeded (prefill : Bool) (batchSize : Nat) :
    Tracks (a.resetIfNeeded prefill batchSize) ranges := by
  unfold HuggingFaceAdapter.resetIfNeeded
  split
  · exact h.reset batchSize
  · exact h

theorem withKvOffsets (mask : Option MaskTensor) : Tracks (a.withKvOffsets mask) ranges := by
  unfold HuggingFaceAdapter.withKvOffsets
  split
  · exact ⟨h.unclaimed, h.contiguous, h.nodup, h.claimed, h.ends⟩
  · exact h

/-- An accepted call continues the ranges of its requests. -/
theorem advanced {requests : List BatchRequest}
    {tokens : List (BatchRequest × Int)} (hbatch : a.batch = some requests)
    (hsame : (tokens.map fun t => (t.1.requestId, t.1.start))
      = requests.map fun r => (r.requestId, r.start)) :
    Tracks (a.advanced tokens) (fun rid => ranges rid ++ rangesIn tokens rid) := by
  have hids : (tokens.map fun t => t.1.requestId) = requests.map (·.requestId) := by
    simpa [Function.comp_def] using congrArg (List.map Prod.fst) hsame
  have hnodup : (tokens.map fun t => t.1.requestId).Nodup := hids ▸ h.nodup requests hbatch
  have hfound : ∀ t ∈ tokens,
      ∃ r ∈ requests, r.requestId = t.1.requestId ∧ r.start = t.1.start := by
    intro t ht
    have hmem : (t.1.requestId, t.1.start) ∈ requests.map fun r => (r.requestId, r.start) :=
      hsame ▸ mem_map_of_mem ht
    obtain ⟨r, hr, heq⟩ := mem_map.mp hmem
    rw [Prod.mk.injEq] at heq
    exact ⟨r, hr, heq.1, heq.2⟩
  have hends : ∀ t ∈ tokens, Contiguous 0
      (ranges t.1.requestId ++ rangesIn tokens t.1.requestId) (t.1.start + t.2) := by
    intro t ht
    obtain ⟨r, hr, hid, hstart⟩ := hfound t ht
    rw [rangesIn_of_mem hnodup ht]
    have hend := h.ends requests hbatch r hr
    rw [hid, hstart] at hend
    exact hend.concat
  refine ⟨?_, ?_, ?_, ?_, ?_⟩
  · intro g i hg
    rw [h.unclaimed g i hg, nil_append]
    apply rangesIn_of_notMem
    intro hmem
    obtain ⟨t, ht, heq⟩ := mem_map.mp hmem
    obtain ⟨r, hr, hid, -⟩ := hfound t ht
    obtain ⟨g', i', hclaim, hlt⟩ := h.claimed requests hbatch r hr
    have hg' := (requestId_inj (hclaim.symm.trans (hid.trans heq))).1
    have hg : a.autoBatchGroupId ≤ g := hg
    omega
  · intro rid
    by_cases hmem : rid ∈ tokens.map fun t => t.1.requestId
    · obtain ⟨t, ht, rfl⟩ := mem_map.mp hmem
      exact ⟨_, hends t ht⟩
    · rw [rangesIn_of_notMem hmem, append_nil]
      exact h.contiguous rid
  · intro requests' hbatch'
    cases hbatch'
    rw [map_map]
    exact hnodup
  · intro requests' hbatch' r' hr'
    cases hbatch'
    obtain ⟨t, ht, rfl⟩ := mem_map.mp hr'
    obtain ⟨r, hr, hid, -⟩ := hfound t ht
    obtain ⟨g, i, hclaim, hlt⟩ := h.claimed requests hbatch r hr
    exact ⟨g, i, hid.symm.trans hclaim, hlt⟩
  · intro requests' hbatch' r' hr'
    cases hbatch'
    obtain ⟨t, ht, rfl⟩ := mem_map.mp hr'
    exact hends t ht

end

end Tracks

theorem tracks_call {r : HfRun δ κ} (h : Tracks r.adapter r.rangesOf) (inputs : ModelInputs δ) :
    Tracks (r.call inputs).adapter (r.call inputs).rangesOf := by
  unfold HfRun.call
  split
  · rename_i a' hbuild
    rcases buildStepContext_none hbuild with ⟨rfl, -⟩ | ⟨ids, -, -, rfl | ⟨-, mask, -, rfl⟩⟩
    · exact h
    · exact h.resetIfNeeded _ _
    · exact (h.resetIfNeeded _ _).withKvOffsets mask
  · rename_i a' b hbuild
    obtain ⟨ids, mask, requests, tokens, -, -, -, hbatch, htokens, rfl, rfl⟩ :=
      buildStepContext_some hbuild
    have hsame := map_stepTokens (fun r => (r.requestId, r.start)) (fun _ _ => rfl)
      (length_of_resetIfNeeded hbatch) htokens
    have hnext := ((h.resetIfNeeded _ _).withKvOffsets mask).advanced
      ((batch_withKvOffsets mask).trans hbatch) hsame
    convert hnext using 2
    rw [HfRun.rangesOf, flatMap_append, flatMap_singleton, Forward.rangesOf]
    simp only [contextOf, zip_map', filterMap_map]
    rfl

theorem tracks_step {r r' : HfRun δ κ} {act : HfAct δ} (h : Tracks r.adapter r.rangesOf)
    (hstep : hfStep r act = some r') : Tracks r'.adapter r'.rangesOf := by
  cases act with
  | forward inputs =>
    cases hstep
    exact tracks_call h inputs
  | claimGroup =>
    cases hstep
    refine ⟨fun g i hg => h.unclaimed g i (Nat.le_of_succ_le hg), h.contiguous, h.nodup, ?_, h.ends⟩
    intro requests hbatch r hr
    obtain ⟨g, i, hid, hlt⟩ := h.claimed requests hbatch r hr
    exact ⟨g, i, hid, Nat.lt_succ_of_lt hlt⟩

end Dmi.HuggingFace
