import Dmi.Lib.Json.RoundTrip
import Dmi.Lib.Basic

/-!
# Capture metadata

`CaptureMetadata` is what a capture is: a record that its constructor validates.
The bounds that `__post_init__` enforces are part of the types here (`Text`, `UInt32`,
`UInt64`, `LayerNumber`, `Shape`, `DType`), so an invalid value cannot be built, and
the checks themselves stand in `fromMapping`, which reads a decoded JSON object.

`fromMapping_toMapping` says that the JSON object of a metadata record is read back
as that record, in whatever order its members come.
-/

namespace Dmi.Capture

open Json (Value Str cps lookup Plain)
open List hiding lookup

/-! ### Field types -/

def textLimit : Nat := 512

/-- What `_validate_text` accepts: non-empty UTF-8 within the limit. -/
structure Text where
  val : String
  ne_empty : val ≠ ""
  size_le : val.utf8ByteSize ≤ textLimit
  deriving DecidableEq

theorem Text.ext {a b : Text} (h : a.val = b.val) : a = b := by
  cases a
  cases b
  cases h
  rfl

/-- The element types of a captured tensor. -/
inductive DType where
  | bool | uint8 | int8 | uint16 | int16 | float16 | bfloat16 | float8E4m3fn | float8E5m2
  | int32 | uint32 | float32 | int64 | float64
  deriving DecidableEq, Repr

namespace DType

def all : List DType :=
  [bool, uint8, int8, uint16, int16, float16, bfloat16, float8E4m3fn, float8E5m2, int32, uint32,
    float32, int64, float64]

def name : DType → String
  | bool => "bool"
  | uint8 => "uint8"
  | int8 => "int8"
  | uint16 => "uint16"
  | int16 => "int16"
  | float16 => "float16"
  | bfloat16 => "bfloat16"
  | float8E4m3fn => "float8_e4m3fn"
  | float8E5m2 => "float8_e5m2"
  | int32 => "int32"
  | uint32 => "uint32"
  | float32 => "float32"
  | int64 => "int64"
  | float64 => "float64"

/-- `_DTYPE_BYTES`. -/
def bytes : DType → Nat
  | bool | uint8 | int8 | float8E4m3fn | float8E5m2 => 1
  | uint16 | int16 | float16 | bfloat16 => 2
  | int32 | uint32 | float32 => 4
  | int64 | float64 => 8

/-- The dtype a text names. -/
def ofName? (s : Str) : Option DType := all.find? fun d => cps d.name = s

theorem ofName?_name (d : DType) : ofName? (cps d.name) = some d := by
  cases d <;> decide

end DType

def maxRank : Nat := 32

/-- The dimensions of a tensor. -/
structure Shape where
  dims : List Nat
  rank_le : dims.length ≤ maxRank
  dims_le : ∀ d ∈ dims, d ≤ 2 ^ 31 - 1
  deriving DecidableEq

/-- A layer number; `-1` stands for none. -/
structure LayerNumber where
  val : Int
  bounds : -1 ≤ val ∧ val ≤ 2 ^ 31 - 1
  deriving DecidableEq

/-- `CaptureMetadata`. -/
structure CaptureMetadata where
  captureId : Text
  tenantId : Text
  experimentId : Text
  runId : Text
  sessionId : Text
  requestId : Text
  sequenceId : Text
  modelId : Text
  modelRevision : Text
  adapterRevision : Option Text
  capturePolicyVersion : Text
  hookName : Text
  layerNumber : LayerNumber
  producerRank : UInt32
  stepNumber : UInt64
  tokenStart : UInt64
  tokenEnd : UInt64
  batchPosition : UInt32
  dtype : DType
  shape : Shape
  capturedAtNs : UInt64
  tokens_le : tokenStart ≤ tokenEnd
  deriving DecidableEq

/-- `math.prod(self.shape) * _DTYPE_BYTES[self.dtype]`. -/
def CaptureMetadata.logicalBytes (m : CaptureMetadata) : Nat := m.shape.dims.prod * m.dtype.bytes

/-- `CaptureRecord`: a payload of the length that its metadata announces.  Like every
`bytes` object it holds at most `sys.maxsize` bytes. -/
structure CaptureRecord where
  metadata : CaptureMetadata
  payload : Bytes
  length_eq : payload.length = metadata.logicalBytes
  length_lt : payload.length < 2 ^ 63
  deriving DecidableEq

/-! ### To a JSON object -/

/-- `to_mapping`. -/
def CaptureMetadata.toMapping (m : CaptureMetadata) : List (Str × Value) := [
  (cps "capture_id", .str (cps m.captureId.val)),
  (cps "tenant_id", .str (cps m.tenantId.val)),
  (cps "experiment_id", .str (cps m.experimentId.val)),
  (cps "run_id", .str (cps m.runId.val)),
  (cps "session_id", .str (cps m.sessionId.val)),
  (cps "request_id", .str (cps m.requestId.val)),
  (cps "sequence_id", .str (cps m.sequenceId.val)),
  (cps "model_id", .str (cps m.modelId.val)),
  (cps "model_revision", .str (cps m.modelRevision.val)),
  (cps "adapter_revision", (m.adapterRevision.map fun t => Value.str (cps t.val)).getD .null),
  (cps "capture_policy_version", .str (cps m.capturePolicyVersion.val)),
  (cps "hook_name", .str (cps m.hookName.val)),
  (cps "layer_number", .int m.layerNumber.val),
  (cps "producer_rank", .int m.producerRank.toNat),
  (cps "step_number", .int m.stepNumber.toNat),
  (cps "token_start", .int m.tokenStart.toNat),
  (cps "token_end", .int m.tokenEnd.toNat),
  (cps "batch_position", .int m.batchPosition.toNat),
  (cps "dtype", .str (cps m.dtype.name)),
  (cps "shape", .arr (m.shape.dims.map fun d : Nat => Value.int d)),
  (cps "captured_at_ns", .int m.capturedAtNs.toNat)]

/-- The dataclass fields, in order. -/
def fieldNames : List String := [
  "capture_id", "tenant_id", "experiment_id", "run_id", "session_id", "request_id", "sequence_id",
  "model_id", "model_revision", "adapter_revision", "capture_policy_version", "hook_name",
  "layer_number", "producer_rank", "step_number", "token_start", "token_end", "batch_position",
  "dtype", "shape", "captured_at_ns"]

/-! ### From a JSON object -/

/-- Why a JSON object is no capture metadata. -/
inductive MetadataError where
  | missing (names : List String)
  | shapeNotIntegers
  | textRequired (name : String)
  | textInvalid (name : String)
  | textUnencodable (name : String)
  | dtypeUnsupported (value : Value)
  | rankTooLarge
  | dimensionOutOfRange
  | outOfBounds (name : String) (upper : Nat)
  | layerNumberOutOfRange
  | tokensReversed

/-- `_validate_text`. -/
def validateText (name : String) : Value → Except MetadataError Text
  | .null => .error (.textRequired name)
  | .str s =>
    match Json.toString? s with
    | none => .error (.textUnencodable name)
    | some t =>
      if h : t ≠ "" ∧ t.utf8ByteSize ≤ textLimit then .ok ⟨t, h.1, h.2⟩
      else .error (.textInvalid name)
  | _ => .error (.textInvalid name)

/-- `_validate_text(..., optional=True)`. -/
def validateOptionalText (name : String) : Value → Except MetadataError (Option Text)
  | .null => .ok none
  | v => (validateText name v).map some

def validateDType : Value → Except MetadataError DType
  | .str s =>
    match DType.ofName? s with
    | some d => .ok d
    | none => .error (.dtypeUnsupported (.str s))
  | v => .error (.dtypeUnsupported v)

def integer : Value → Except MetadataError Int
  | .int n => .ok n
  | _ => .error .shapeNotIntegers

/-- `isinstance(shape, list) and all(type(dim) is int for dim in shape)`. -/
def integerList : Value → Except MetadataError (List Int)
  | .arr xs => xs.mapM integer
  | _ => .error .shapeNotIntegers

def validateShape (dims : List Int) : Except MetadataError Shape :=
  if hr : dims.length ≤ maxRank then
    if hd : ∀ d ∈ dims, 0 ≤ d ∧ d ≤ 2 ^ 31 - 1 then
      .ok ⟨dims.map Int.toNat, by rwa [List.length_map], by
        intro d hmem
        obtain ⟨e, he, rfl⟩ := List.mem_map.mp hmem
        have := hd e he
        omega⟩
    else .error .dimensionOutOfRange
  else .error .rankTooLarge

/-- One of the `bounded` checks. -/
def validateBounded (name : String) (upper : Nat) : Value → Except MetadataError Nat
  | .int n => if 0 ≤ n ∧ n ≤ upper then .ok n.toNat else .error (.outOfBounds name upper)
  | _ => .error (.outOfBounds name upper)

def validateUInt32 (name : String) (v : Value) : Except MetadataError UInt32 :=
  (validateBounded name (2 ^ 32 - 1) v).map UInt32.ofNat

def validateUInt64 (name : String) (v : Value) : Except MetadataError UInt64 :=
  (validateBounded name (2 ^ 64 - 1) v).map UInt64.ofNat

def validateLayerNumber : Value → Except MetadataError LayerNumber
  | .int n => if h : -1 ≤ n ∧ n ≤ 2 ^ 31 - 1 then .ok ⟨n, h⟩ else .error .layerNumberOutOfRange
  | _ => .error .layerNumberOutOfRange

/-- `value[name]`, for a name that is not missing. -/
def field (value : List (Str × Value)) (name : String) : Value :=
  (lookup (cps name) value).getD .null

/-- `from_mapping`: the missing fields first, then the shape's type, then the checks
of `__post_init__` in its order. -/
def fromMapping (value : List (Str × Value)) : Except MetadataError CaptureMetadata :=
  match fieldNames.filter fun name => (lookup (cps name) value).isNone with
  | name :: names => .error (.missing (name :: names))
  | [] => do
    let dims ← integerList (field value "shape")
    let captureId ← validateText "capture_id" (field value "capture_id")
    let tenantId ← validateText "tenant_id" (field value "tenant_id")
    let experimentId ← validateText "experiment_id" (field value "experiment_id")
    let runId ← validateText "run_id" (field value "run_id")
    let sessionId ← validateText "session_id" (field value "session_id")
    let requestId ← validateText "request_id" (field value "request_id")
    let sequenceId ← validateText "sequence_id" (field value "sequence_id")
    let modelId ← validateText "model_id" (field value "model_id")
    let modelRevision ← validateText "model_revision" (field value "model_revision")
    let capturePolicyVersion ←
      validateText "capture_policy_version" (field value "capture_policy_version")
    let hookName ← validateText "hook_name" (field value "hook_name")
    let adapterRevision ← validateOptionalText "adapter_revision" (field value "adapter_revision")
    let dtype ← validateDType (field value "dtype")
    let shape ← validateShape dims
    let producerRank ← validateUInt32 "producer_rank" (field value "producer_rank")
    let batchPosition ← validateUInt32 "batch_position" (field value "batch_position")
    let stepNumber ← validateUInt64 "step_number" (field value "step_number")
    let tokenStart ← validateUInt64 "token_start" (field value "token_start")
    let tokenEnd ← validateUInt64 "token_end" (field value "token_end")
    let capturedAtNs ← validateUInt64 "captured_at_ns" (field value "captured_at_ns")
    let layerNumber ← validateLayerNumber (field value "layer_number")
    if h : tokenStart ≤ tokenEnd then
      .ok ⟨captureId, tenantId, experimentId, runId, sessionId, requestId, sequenceId, modelId,
        modelRevision, adapterRevision, capturePolicyVersion, hookName, layerNumber, producerRank,
        stepNumber, tokenStart, tokenEnd, batchPosition, dtype, shape, capturedAtNs, h⟩
    else .error .tokensReversed

/-! ### Round trip -/

theorem validateText_cps (name : String) (t : Text) :
    validateText name (.str (cps t.val)) = .ok t := by
  rw [validateText, Json.toString?_cps]
  exact dif_pos ⟨t.ne_empty, t.size_le⟩

theorem validateOptionalText_cps (name : String) (t : Option Text) :
    validateOptionalText name ((t.map fun t => Value.str (cps t.val)).getD .null) = .ok t := by
  cases t with
  | none => rfl
  | some t => exact congrArg (Except.map some) (validateText_cps name t)

theorem validateDType_name (d : DType) : validateDType (.str (cps d.name)) = .ok d := by
  rw [validateDType, DType.ofName?_name]

theorem validateShape_dims (s : Shape) : validateShape (s.dims.map Int.ofNat) = .ok s := by
  have hrank : (s.dims.map Int.ofNat).length ≤ maxRank := by
    rw [length_map]
    exact s.rank_le
  have hdims : ∀ d ∈ s.dims.map Int.ofNat, 0 ≤ d ∧ d ≤ 2 ^ 31 - 1 := by
    intro d hd
    obtain ⟨e, he, rfl⟩ := mem_map.mp hd
    have := s.dims_le e he
    simp only [Int.ofNat_eq_natCast]
    omega
  have hback : (s.dims.map Int.ofNat).map Int.toNat = s.dims := by
    rw [map_map]
    exact map_id _
  rw [validateShape, dif_pos hrank, dif_pos hdims]
  cases s
  simp only [hback]

theorem validateBounded_natCast {name : String} {upper n : Nat} (h : n ≤ upper) :
    validateBounded name upper (.int n) = .ok n := by
  rw [validateBounded, if_pos ⟨Int.natCast_nonneg n, Int.ofNat_le.mpr h⟩, Int.toNat_natCast]

theorem validateUInt32_toNat (name : String) (n : UInt32) :
    validateUInt32 name (.int n.toNat) = .ok n := by
  have := n.toNat_lt
  rw [validateUInt32, validateBounded_natCast (by omega)]
  exact congrArg Except.ok (UInt32.ofNat_toNat)

theorem validateUInt64_toNat (name : String) (n : UInt64) :
    validateUInt64 name (.int n.toNat) = .ok n := by
  have := n.toNat_lt
  rw [validateUInt64, validateBounded_natCast (by omega)]
  exact congrArg Except.ok (UInt64.ofNat_toNat)

theorem validateLayerNumber_val (n : LayerNumber) : validateLayerNumber (.int n.val) = .ok n := by
  rw [validateLayerNumber, dif_pos n.bounds]

theorem fromMapping_congr {a b : List (Str × Value)} (h : ∀ k, lookup k a = lookup k b) :
    fromMapping a = fromMapping b := by
  have hfield : field a = field b := funext fun name => by rw [field, field, h]
  simp only [fromMapping, h, hfield]

/-! ### What is accepted -/

variable {v : Value}

theorem validateText_eq_ok {name : String} {t : Text} :
    validateText name v = .ok t ↔ v = .str (cps t.val) := by
  constructor
  · intro h
    cases v with
    | str s =>
      simp only [validateText] at h
      split at h
      next => cases h
      next u hu =>
        split at h
        next =>
          cases h
          rw [Json.toString?_eq_some.mp hu]
        next => cases h
    | null | bool | int | float | arr | obj => cases h
  · rintro rfl
    exact validateText_cps name t

theorem validateOptionalText_eq_ok {name : String} {t : Option Text} :
    validateOptionalText name v = .ok t ↔
      v = (t.map fun t => Value.str (cps t.val)).getD .null := by
  constructor
  · intro h
    cases v with
    | null =>
      cases h
      rfl
    | str s =>
      obtain ⟨u, hu, rfl⟩ := map_eq_ok.mp h
      exact validateText_eq_ok.mp hu
    | bool | int | float | arr | obj => cases h
  · rintro rfl
    exact validateOptionalText_cps name t

theorem validateDType_eq_ok {d : DType} : validateDType v = .ok d ↔ v = .str (cps d.name) := by
  constructor
  · intro h
    cases v with
    | str s =>
      simp only [validateDType] at h
      split at h
      next e he =>
        cases h
        have hname := find?_some he
        rw [of_decide_eq_true hname]
      next => cases h
    | null | bool | int | float | arr | obj => cases h
  · rintro rfl
    exact validateDType_name d

theorem integerList_eq_ok {dims : List Int} :
    integerList v = .ok dims ↔ v = .arr (dims.map Value.int) := by
  have hinteger : ∀ x d, integer x = .ok d ↔ x = Value.int d := by
    intro x d
    cases x <;> constructor <;> rintro ⟨⟩ <;> rfl
  cases v with
  | arr xs =>
    rw [integerList, mapM_eq_ok, Value.arr.injEq]
    simp only [hinteger]
    rw [← forall₂_map_right_iff, forall₂_eq_eq_eq]
  | null | bool | int | float | str | obj =>
    constructor <;> intro h <;> cases h

theorem integerList_dims (dims : List Nat) :
    integerList (.arr (dims.map fun d : Nat => Value.int d)) = .ok (dims.map Int.ofNat) := by
  rw [integerList_eq_ok, map_map]
  rfl

theorem validateShape_eq_ok {dims : List Int} {s : Shape} :
    validateShape dims = .ok s ↔ dims = s.dims.map Int.ofNat := by
  constructor
  · intro h
    unfold validateShape at h
    split at h
    next =>
      split at h
      next hd =>
        cases h
        rw [map_map]
        refine (map_id dims).symm.trans (map_congr_left fun d hmem => ?_)
        exact (Int.toNat_of_nonneg (hd d hmem).1).symm
      next => cases h
    next => cases h
  · rintro rfl
    exact validateShape_dims s

theorem validateBounded_eq_ok {name : String} {upper n : Nat} :
    validateBounded name upper v = .ok n ↔ v = .int n ∧ n ≤ upper := by
  constructor
  · intro h
    cases v with
    | int k =>
      simp only [validateBounded] at h
      split at h
      next hk =>
        cases h
        have hnat := Int.toNat_of_nonneg hk.1
        exact ⟨by rw [hnat], by omega⟩
      next => cases h
    | null | bool | float | str | arr | obj => cases h
  · rintro ⟨rfl, hle⟩
    exact validateBounded_natCast hle

theorem validateUInt32_eq_ok {name : String} {n : UInt32} :
    validateUInt32 name v = .ok n ↔ v = .int n.toNat := by
  constructor
  · intro h
    obtain ⟨k, hb, rfl⟩ := map_eq_ok.mp h
    obtain ⟨hv, hk⟩ := validateBounded_eq_ok.mp hb
    rw [hv, UInt32.toNat_ofNat_of_lt' (by show k < 2 ^ 32; omega)]
  · rintro rfl
    exact validateUInt32_toNat name n

theorem validateUInt64_eq_ok {name : String} {n : UInt64} :
    validateUInt64 name v = .ok n ↔ v = .int n.toNat := by
  constructor
  · intro h
    obtain ⟨k, hb, rfl⟩ := map_eq_ok.mp h
    obtain ⟨hv, hk⟩ := validateBounded_eq_ok.mp hb
    rw [hv, UInt64.toNat_ofNat_of_lt' (by show k < 2 ^ 64; omega)]
  · rintro rfl
    exact validateUInt64_toNat name n

theorem validateLayerNumber_eq_ok {n : LayerNumber} :
    validateLayerNumber v = .ok n ↔ v = .int n.val := by
  constructor
  · intro h
    cases v with
    | int k =>
      simp only [validateLayerNumber] at h
      split at h
      next =>
        cases h
        rfl
      next => cases h
    | null | bool | float | str | arr | obj => cases h
  · rintro rfl
    exact validateLayerNumber_val n

variable (m : CaptureMetadata)

theorem CaptureMetadata.keys_nodup : (m.toMapping.map Prod.fst).Nodup := by
  have hkeys : m.toMapping.map Prod.fst = fieldNames.map cps := rfl
  rw [hkeys]
  decide

theorem CaptureMetadata.lookup_toMapping {name : String}
    (h : name ∈ fieldNames) : lookup (cps name) m.toMapping = some (field m.toMapping name) := by
  have hkey : cps name ∈ m.toMapping.map Prod.fst := mem_map_of_mem h
  obtain ⟨⟨k, v⟩, hmem, hk⟩ := mem_map.mp hkey
  have hsome : lookup (cps name) m.toMapping = some v :=
    (Json.lookup_eq_some_iff m.keys_nodup).mpr (hk ▸ hmem)
  rw [field, hsome, Option.getD_some]

/-- The object has the values of the record under the names of its fields. -/
def CaptureMetadata.Reads (m : CaptureMetadata) (value : List (Str × Value)) : Prop :=
  ∀ name ∈ fieldNames, lookup (cps name) value = some (field m.toMapping name)

variable {value : List (Str × Value)}

theorem CaptureMetadata.Reads.fromMapping_eq {m : CaptureMetadata}
    (h : m.Reads value) : fromMapping value = .ok m := by
  have hnone : (fieldNames.filter fun name => (lookup (cps name) value).isNone) = [] := by
    rw [filter_eq_nil_iff]
    intro name hname
    rw [h name hname]
    exact Bool.false_ne_true
  have hfields : fieldNames.map (field value) = m.toMapping.map Prod.snd := by
    refine Eq.trans (map_congr_left fun name hname => ?_)
      (show fieldNames.map (field m.toMapping) = m.toMapping.map Prod.snd from rfl)
    rw [field, h name hname, Option.getD_some]
  simp only [fromMapping, hnone]
  simp only [fieldNames, toMapping, map_cons, map_nil, List.cons.injEq, and_true]
    at hfields
  simp only [hfields, ok_bind, integerList_dims, validateText_cps, validateOptionalText_cps,
    validateDType_name, validateShape_dims, validateUInt32_toNat, validateUInt64_toNat,
    validateLayerNumber_val]
  exact dif_pos m.tokens_le

theorem CaptureMetadata.fromMapping_toMapping : fromMapping m.toMapping = .ok m :=
  CaptureMetadata.Reads.fromMapping_eq fun _ hname => m.lookup_toMapping hname

/-- **What `from_mapping` accepts**: it returns the record whose object has the same values
under the names of the fields. -/
theorem fromMapping_eq_ok {m : CaptureMetadata} : fromMapping value = .ok m ↔ m.Reads value := by
  refine ⟨fun h => ?_, fun h => h.fromMapping_eq⟩
  unfold fromMapping at h
  split at h
  next => cases h
  next hnone =>
    have hsome : ∀ name ∈ fieldNames, lookup (cps name) value = some (field value name) := by
      intro name hname
      have hnot := filter_eq_nil_iff.mp hnone name hname
      cases hv : lookup (cps name) value with
      | none => exact absurd (by rw [hv]; rfl) hnot
      | some v => rw [field, hv, Option.getD_some]
    simp only [bind_eq_ok, validateText_eq_ok, validateOptionalText_eq_ok, validateDType_eq_ok,
      integerList_eq_ok, validateShape_eq_ok, validateUInt32_eq_ok, validateUInt64_eq_ok,
      validateLayerNumber_eq_ok] at h
    obtain ⟨dims, hshape, captureId, hcaptureId, tenantId, htenantId, experimentId, hexperimentId,
      runId, hrunId, sessionId, hsessionId, requestId, hrequestId, sequenceId, hsequenceId,
      modelId, hmodelId, modelRevision, hmodelRevision, capturePolicyVersion,
      hcapturePolicyVersion, hookName, hhookName, adapterRevision, hadapterRevision, dtype,
      hdtype, shape, rfl, producerRank, hproducerRank, batchPosition, hbatchPosition,
      stepNumber, hstepNumber, tokenStart, htokenStart, tokenEnd, htokenEnd, capturedAtNs,
      hcapturedAtNs, layerNumber, hlayerNumber, hend⟩ := h
    rw [map_map] at hshape
    split at hend
    next htokens =>
      cases hend
      have hvalues : fieldNames.map (field value) = fieldNames.map (field (CaptureMetadata.toMapping
          ⟨captureId, tenantId, experimentId, runId, sessionId, requestId, sequenceId, modelId,
            modelRevision, adapterRevision, capturePolicyVersion, hookName, layerNumber,
            producerRank, stepNumber, tokenStart, tokenEnd, batchPosition, dtype, shape,
            capturedAtNs, htokens⟩)) := by
        simp only [fieldNames, map_cons, map_nil, hshape, hcaptureId, htenantId,
          hexperimentId, hrunId, hsessionId, hrequestId, hsequenceId, hmodelId, hmodelRevision,
          hcapturePolicyVersion, hhookName, hadapterRevision, hdtype, hproducerRank,
          hbatchPosition, hstepNumber, htokenStart, htokenEnd, hcapturedAtNs, hlayerNumber]
        rfl
      intro name hname
      rw [hsome name hname, map_inj_left.mp hvalues name hname]
    next => cases hend

/-- **`from_mapping` accepts what `to_mapping` writes under each name.** -/
theorem fromMapping_iff_toMapping : fromMapping value = .ok m ↔
    ∀ name ∈ fieldNames, lookup (cps name) value = lookup (cps name) m.toMapping :=
  fromMapping_eq_ok.trans (forall₂_congr fun _ hname => by rw [m.lookup_toMapping hname])

/-! ### Through the encoder -/

theorem plain_natCast {n : Nat} (h : n < 2 ^ 64) : Plain (.int n) := by
  refine .int n (Nat.lt_of_lt_of_le h ?_)
  calc 2 ^ 64 ≤ 10 ^ 20 := by decide
    _ ≤ 10 ^ Json.maxStrDigits := Nat.pow_le_pow_right (by decide) (by decide)

theorem LayerNumber.plain (n : LayerNumber) : Plain (.int n.val) := by
  have := n.bounds
  refine .int _ (Nat.lt_of_lt_of_le (m := 10 ^ 20) (by omega) ?_)
  exact Nat.pow_le_pow_right (by decide) (by decide)

/-- The JSON object of a metadata record is written without loss. -/
theorem CaptureMetadata.plain : Plain (.obj m.toMapping) := by
  refine .obj _ (fun kv h => ?_) ?_
  · have hkey : kv.1 ∈ fieldNames.map cps := mem_map_of_mem (f := Prod.fst) h
    obtain ⟨name, _, hname⟩ := mem_map.mp hkey
    intro c hc
    rw [← hname] at hc
    exact Json.scalar_of_mem_cps hc
  · have h32 : ∀ n : UInt32, Plain (.int n.toNat) := fun n =>
      plain_natCast (Nat.lt_trans n.toNat_lt (by decide))
    have h64 : ∀ n : UInt64, Plain (.int n.toNat) := fun n => plain_natCast n.toNat_lt
    have hadapter : Plain ((m.adapterRevision.map fun t => Value.str (cps t.val)).getD .null) := by
      cases m.adapterRevision with
      | none => exact .null
      | some t => exact .cps t.val
    have hshape : Plain (.arr (m.shape.dims.map fun d : Nat => Value.int d)) := by
      refine .arr _ fun v hv => ?_
      obtain ⟨d, hd, rfl⟩ := mem_map.mp hv
      have := m.shape.dims_le d hd
      exact plain_natCast (by omega)
    simp only [toMapping, forall_mem_cons, not_mem_nil, false_implies, implies_true,
      and_true]
    exact ⟨.cps _, .cps _, .cps _, .cps _, .cps _, .cps _, .cps _, .cps _, .cps _, hadapter,
      .cps _, .cps _, m.layerNumber.plain, h32 _, h64 _, h64 _, h64 _, h32 _, .cps _, hshape, h64 _⟩

/-- No member of the object holds an object, so sorting its keys only moves members. -/
theorem CaptureMetadata.sortKeys_member : ∀ kv ∈ m.toMapping, Json.sortKeys kv.2 = kv.2 := by
  have hadapter : Json.sortKeys ((m.adapterRevision.map fun t => Value.str (cps t.val)).getD .null)
      = (m.adapterRevision.map fun t => Value.str (cps t.val)).getD .null := by
    cases m.adapterRevision <;> rfl
  have hshape : Json.sortKeys (.arr (m.shape.dims.map fun d : Nat => Value.int d))
      = .arr (m.shape.dims.map fun d : Nat => Value.int d) := by
    rw [Json.sortKeys, Json.sortElems_eq_map, map_map]
    rfl
  simp only [toMapping, forall_mem_cons, not_mem_nil, false_implies, implies_true,
    and_true]
  refine ⟨rfl, rfl, rfl, rfl, rfl, rfl, rfl, rfl, rfl, hadapter, rfl, rfl, rfl, rfl, rfl, rfl,
    rfl, rfl, rfl, hshape, rfl⟩

/-- **The encoded metadata is read back**: its members come sorted from the decoder. -/
theorem CaptureMetadata.fromMapping_sortMembers :
    fromMapping (Json.sortMembers m.toMapping) = .ok m := by
  rw [← m.fromMapping_toMapping]
  apply fromMapping_congr
  intro k
  rw [Json.lookup_sortMembers m.keys_nodup]
  cases hv : lookup k m.toMapping with
  | none => rfl
  | some v =>
    have hmem := (Json.lookup_eq_some_iff m.keys_nodup).mp hv
    exact congrArg some (m.sortKeys_member _ hmem)

end Dmi.Capture
