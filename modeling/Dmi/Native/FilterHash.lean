import Dmi.Native.Encoding
import Dmi.Native.FooterRow

/-!
# The hash of a query's filters

A cursor carries the hash of the filters that it was issued for.  `CaptureQuery.filterHash` hashes
the sorted text of the fields of the query that filter, and `filterHashImpl` a text written field
by field.  Both texts are the same for every query (`filterJson_eq`), so a cursor passes the check
of the other implementation.

A query is what `__post_init__` accepts, with integers in the range of the native ones.
-/

namespace Dmi.Native

open List
open Json (Value Str cps asciiBytes)
open Capture (Text encodeJson)

/-! ### The reference -/

/-- `CaptureQuery`. -/
structure CaptureQuery where
  tenantId : Option Text
  experimentId : Option Text
  runId : Option Text
  sessionId : Option Text
  modelId : Option Text
  hookNames : List Text
  layerNumbers : List Int64
  capturedAfterNs : Option UInt64
  capturedBeforeNs : Option UInt64
  cursor : Option String
  limit : Nat
  limit_bounds : 1 ≤ limit ∧ limit ≤ 10000
  cursor_valid : ∀ c ∈ cursor, c ≠ "" ∧ c.utf8ByteSize ≤ 2048
  cardinality : hookNames.length ≤ 128 ∧ layerNumbers.length ≤ 1024
  layers_ge : ∀ layer ∈ layerNumbers, -1 ≤ layer.toInt
  ordered : ∀ after ∈ capturedAfterNs, ∀ before ∈ capturedBeforeNs, after ≤ before

/-- An optional value of a field. -/
def optional {α : Type} (value : α → Value) (o : Option α) : Value := o.elim .null value

/-- `asdict(query)`. -/
def CaptureQuery.asdict (q : CaptureQuery) : List (String × Value) :=
  let text (t : Text) : Value := .str (cps t.val)
  let number (n : UInt64) : Value := .int n.toNat
  [("tenant_id", optional text q.tenantId),
    ("experiment_id", optional text q.experimentId),
    ("run_id", optional text q.runId),
    ("session_id", optional text q.sessionId),
    ("model_id", optional text q.modelId),
    ("hook_names", .arr (q.hookNames.map text)),
    ("layer_numbers", .arr (q.layerNumbers.map fun layer => .int layer.toInt)),
    ("captured_after_ns", optional number q.capturedAfterNs),
    ("captured_before_ns", optional number q.capturedBeforeNs),
    ("cursor", optional (fun c => .str (cps c)) q.cursor),
    ("limit", .int q.limit)]

/-- `_NON_FILTER_QUERY_FIELDS`. -/
def nonFilterQueryFields : List String := ["cursor", "limit"]

/-- The text that `filter_hash` hashes. -/
def CaptureQuery.filterJson (q : CaptureQuery) : Bytes :=
  let selected := q.asdict.filter fun item => item.1 ∉ nonFilterQueryFields
  encodeJson (.obj (selected.map fun item => (cps item.1, item.2)))

/-- `CaptureQuery.filter_hash`. -/
def CaptureQuery.filterHash (q : CaptureQuery) : String := sha256Hex q.filterJson

/-! ### The native hash -/

/-- `SearchFilters`. -/
structure SearchFilters where
  tenantId : Option Bytes
  experimentId : Option Bytes
  runId : Option Bytes
  sessionId : Option Bytes
  modelId : Option Bytes
  hookNames : List Bytes
  layerNumbers : List Int64
  capturedAfterNs : Option UInt64
  capturedBeforeNs : Option UInt64

/-- `filters_from`, as far as the filters go. -/
def SearchFilters.ofQuery (q : CaptureQuery) : SearchFilters :=
  let text (t : Text) : Bytes := utf8 t.val
  ⟨q.tenantId.map text, q.experimentId.map text, q.runId.map text, q.sessionId.map text,
    q.modelId.map text, q.hookNames.map text, q.layerNumbers, q.capturedAfterNs,
    q.capturedBeforeNs⟩

/-- The text that `filter_hash_impl` hashes. -/
def filterJson (f : SearchFilters) : Bytes :=
  let opt (v : Option Bytes) : Bytes := v.elim (lit "null") encodeJsonString
  let optInt (v : Option UInt64) : Bytes := v.elim (lit "null") fun n => uintValue n.toNat
  let hookNames := lit "[" ++ joinFields (f.hookNames.map encodeJsonString) ++ lit "]"
  let layers := lit "[" ++ joinFields (f.layerNumbers.map fun n => intValue n.toInt) ++ lit "]"
  lit "\x7b" ++ members [("captured_after_ns", optInt f.capturedAfterNs),
    ("captured_before_ns", optInt f.capturedBeforeNs), ("experiment_id", opt f.experimentId),
    ("hook_names", hookNames), ("layer_numbers", layers), ("model_id", opt f.modelId),
    ("run_id", opt f.runId), ("session_id", opt f.sessionId), ("tenant_id", opt f.tenantId)] ++
    lit "\x7d"

/-- `filter_hash_impl`. -/
def filterHashImpl (f : SearchFilters) : String := sha256Hex (filterJson f)

/-! ### The same text -/

theorem joinFields_asciiBytes (parts : List Str) :
    joinFields (parts.map asciiBytes) = asciiBytes (Json.joinComma parts) := by
  induction parts with
  | nil => rfl
  | cons p parts ih =>
    cases parts with
    | nil => rfl
    | cons q parts =>
      rw [map_cons, map_cons, joinFields, Json.joinComma, Json.asciiBytes_append,
        Json.asciiBytes_cons, ← ih]
      rfl

/-- **A list written element by element.** -/
theorem array_eq {α : Type} (l : List α) (part : α → Bytes) (value : α → Value)
    (h : ∀ x ∈ l, part x = asciiBytes (Json.render (Json.sortKeys (value x)))) :
    lit "[" ++ joinFields (l.map part) ++ lit "]" =
      asciiBytes (Json.render (Json.sortKeys (.arr (l.map value)))) := by
  rw [Json.sortKeys, Json.sortElems_eq_map, Json.render_arr, map_congr_left h, Json.asciiBytes_cons,
    Json.asciiBytes_append, ← joinFields_asciiBytes, map_map, map_map, map_map]
  rfl

theorem text_eq (t : Text) : encodeJsonString (utf8 t.val) =
    asciiBytes (Json.render (Json.sortKeys (.str (cps t.val)))) :=
  encodeJsonString_utf8 t.val

theorem optional_text_eq (o : Option Text) :
    (o.map fun t => utf8 t.val).elim (lit "null") encodeJsonString =
      asciiBytes (Json.render (Json.sortKeys (optional (fun t => .str (cps t.val)) o))) := by
  cases o with
  | none => rfl
  | some t => exact text_eq t

theorem optional_number_eq (o : Option UInt64) :
    o.elim (lit "null") (fun n => uintValue n.toNat) =
      asciiBytes (Json.render (Json.sortKeys (optional (fun n => .int n.toNat) o))) := by
  cases o with
  | none | some n => rfl

theorem sorted_filters (after before experiment hooks layers model run session tenant : Value) :
    Json.sortMembers [(cps "tenant_id", tenant), (cps "experiment_id", experiment),
      (cps "run_id", run), (cps "session_id", session), (cps "model_id", model),
      (cps "hook_names", hooks), (cps "layer_numbers", layers), (cps "captured_after_ns", after),
      (cps "captured_before_ns", before)] =
    [(cps "captured_after_ns", Json.sortKeys after),
      (cps "captured_before_ns", Json.sortKeys before),
      (cps "experiment_id", Json.sortKeys experiment), (cps "hook_names", Json.sortKeys hooks),
      (cps "layer_numbers", Json.sortKeys layers), (cps "model_id", Json.sortKeys model),
      (cps "run_id", Json.sortKeys run), (cps "session_id", Json.sortKeys session),
      (cps "tenant_id", Json.sortKeys tenant)] := rfl

theorem filterJson_eq (q : CaptureQuery) :
    filterJson (SearchFilters.ofQuery q) = q.filterJson := by
  have hjson : q.filterJson = asciiBytes (Json.render (.obj _)) :=
    congrArg (fun kvs => asciiBytes (Json.render (.obj kvs))) (sorted_filters ..)
  rw [hjson]
  have hhooks := array_eq q.hookNames _ _ fun t _ => text_eq t
  have hmap : (q.hookNames.map fun t => utf8 t.val).map encodeJsonString =
      q.hookNames.map fun t => encodeJsonString (utf8 t.val) := map_map
  rw [← hmap] at hhooks
  have hlayers := array_eq q.layerNumbers (fun n => intValue n.toInt) (fun n => .int n.toInt)
    fun _ _ => rfl
  exact members_eq (.cons (.mk (optional_number_eq _)) (.cons (.mk (optional_number_eq _))
    (.cons (.mk (optional_text_eq _)) (.cons (.mk hhooks) (.cons (.mk hlayers)
    (.cons (.mk (optional_text_eq _)) (.cons (.mk (optional_text_eq _))
    (.cons (.mk (optional_text_eq _)) (.cons (.mk (optional_text_eq _)) .nil)))))))))

/-- **Both hash the same bytes**, so a cursor issued for a query by one of them carries the hash
that the other compares it with. -/
theorem filterHash_agrees (q : CaptureQuery) :
    filterJson (SearchFilters.ofQuery q) = q.filterJson ∧
      filterHashImpl (SearchFilters.ofQuery q) = q.filterHash :=
  ⟨filterJson_eq q, congrArg sha256Hex (filterJson_eq q)⟩

end Dmi.Native
