import Dmi.Lib.Json.RoundTrip
import Dmi.Native.PackBuilder

/-!
# The builder validates and encodes like the reference

On the bytes of a string the escaping loop of the builder writes what `json.dumps` writes for
the string (`encodeJsonString_utf8`), character by character.  The keys of a record entry stand
in the order in which `sort_keys` puts them, so the entry is the same text
(`encodeRecordRow_eq`).  And the builder accepts the metadata exactly when `CaptureMetadata`
can be constructed from it (`validateMetadata_eq_ok`).
-/

namespace Dmi.Native

open List RecordMetadata Int64

open Json (Value Str cps asciiBytes)
open Capture (CaptureMetadata Text DType Shape LayerNumber IndexedRecord recordMapping encodeJson
  fieldNames field fromMapping MetadataError)

/-! ### Escaping -/

theorem escapeAscii_eq :
    ∀ n < 128, escapeAscii (UInt8.ofNat n) = asciiBytes (Json.escapeChar n) := by
  decide +kernel

/-- A leading byte of two, three or four, and the bits it carries. -/
theorem lead2 : ∀ a < 32, ¬ UInt8.ofNat (0xC0 + a) < 0x80 ∧
    UInt8.ofNat (0xC0 + a) &&& 0xE0 = 0xC0 ∧ bits (UInt8.ofNat (0xC0 + a)) 0x1F = a := by
  decide

theorem lead3 : ∀ a < 16, ¬ UInt8.ofNat (0xE0 + a) < 0x80 ∧
    ¬ UInt8.ofNat (0xE0 + a) &&& 0xE0 = 0xC0 ∧ UInt8.ofNat (0xE0 + a) &&& 0xF0 = 0xE0 ∧
    bits (UInt8.ofNat (0xE0 + a)) 0x0F = a := by
  decide

theorem lead4 : ∀ a < 8, ¬ UInt8.ofNat (0xF0 + a) < 0x80 ∧
    ¬ UInt8.ofNat (0xF0 + a) &&& 0xE0 = 0xC0 ∧ ¬ UInt8.ofNat (0xF0 + a) &&& 0xF0 = 0xE0 ∧
    UInt8.ofNat (0xF0 + a) &&& 0xF8 = 0xF0 ∧ bits (UInt8.ofNat (0xF0 + a)) 0x07 = a := by
  decide

theorem continuation : ∀ b < 64, isContinuation (UInt8.ofNat (0x80 + b)) = true ∧
    bits (UInt8.ofNat (0x80 + b)) 0x3F = b := by
  decide

theorem escapeCodePoint_eq {n : Nat} (h : 0x80 ≤ n) :
    escapeCodePoint n = asciiBytes (Json.escapeChar n) := by
  have hshort : Json.shortEscape n = none := by
    have hne : ∀ k < 0x80, n ≠ k := fun k hk => by omega
    simp only [Json.shortEscape, hne _ (show '"'.toNat < 0x80 by decide),
      hne _ (show '\\'.toNat < 0x80 by decide), hne _ (show '\n'.toNat < 0x80 by decide),
      hne _ (show '\r'.toNat < 0x80 by decide), hne _ (show '\t'.toNat < 0x80 by decide),
      hne 12 (by decide), hne 8 (by decide), if_false]
  have hprintable : ¬ (32 ≤ n ∧ n ≤ 126) := by omega
  rw [escapeCodePoint, Json.escapeChar, hshort]
  simp only [hprintable, if_false]
  by_cases hn : n < 0x10000
  · rw [if_pos (by omega), if_pos hn]
    rfl
  · rw [if_neg (by omega), if_neg hn, Json.asciiBytes_append]
    rfl

theorem shiftLeft_or {a b k : Nat} (h : b < 2 ^ k) : a <<< k ||| b = a * 2 ^ k + b := by
  rw [← Nat.shiftLeft_add_eq_or_of_lt h, Nat.shiftLeft_eq]

/-- **One character**, at the beginning of the bytes. -/
theorem escapeBytes_char (c : Char) (rest : Bytes) :
    escapeBytes (String.utf8EncodeChar c ++ rest) =
      asciiBytes (Json.escapeChar c.toNat) ++ escapeBytes rest := by
  rcases utf8EncodeChar_cases c with ⟨hlt, hc⟩ | ⟨a, ha, b, hb, hn, hge, hc⟩ |
    ⟨a, ha, b, hb, d, hd, hn, hge, hc⟩ | ⟨a, ha, b, hb, d, hd, e, he, hn, hge, hmax, hc⟩ <;>
    rw [hc]
  · have hbyte : UInt8.ofNat c.toNat < 0x80 := by
      rw [UInt8.lt_iff_toNat_lt, UInt8.toNat_ofNat_of_lt' (by show c.toNat < 256; omega)]
      exact hlt
    rw [singleton_append, escapeBytes.eq_def]
    simp only [if_pos hbyte, escapeAscii_eq _ hlt]
  · obtain ⟨h1, h2, h3⟩ := lead2 a ha
    rw [cons_append, singleton_append, escapeBytes.eq_def]
    simp only [if_neg h1, if_pos h2]
    simp only [h3, (continuation b hb).2]
    rw [shiftLeft_or (k := 6) (by omega), ← escapeCodePoint_eq hge, hn]
    rfl
  · obtain ⟨h1, h2, h3, h4⟩ := lead3 a ha
    rw [cons_append, cons_append, singleton_append, escapeBytes.eq_def]
    simp only [if_neg h1, if_neg h2, if_pos h3]
    simp only [h4, (continuation b hb).2, (continuation d hd).2]
    rw [Nat.or_assoc, shiftLeft_or (k := 6) (by omega), shiftLeft_or (k := 12) (by omega),
      ← escapeCodePoint_eq (by omega : 0x80 ≤ c.toNat)]
    congr 2
    omega
  · obtain ⟨h1, h2, h3, h4, h5⟩ := lead4 a ha
    rw [cons_append, cons_append, cons_append, singleton_append,
      escapeBytes.eq_def]
    simp only [if_neg h1, if_neg h2, if_neg h3, if_pos h4]
    simp only [h5, (continuation b hb).2, (continuation d hd).2, (continuation e he).2]
    rw [Nat.or_assoc, shiftLeft_or (k := 6) (by omega), Nat.or_assoc,
      shiftLeft_or (k := 12) (by omega), shiftLeft_or (k := 18) (by omega),
      ← escapeCodePoint_eq (by omega : 0x80 ≤ c.toNat)]
    congr 2
    omega

variable (s : String)

theorem escapeBytes_utf8 : escapeBytes (utf8 s) = asciiBytes ((cps s).flatMap Json.escapeChar) := by
  unfold utf8 cps
  induction s.toList with
  | nil => rfl
  | cons c l ih =>
    rw [flatMap_cons, escapeBytes_char, ih, map_cons, flatMap_cons,
      Json.asciiBytes_append]

/-- **The builder escapes like the reference.** -/
theorem encodeJsonString_utf8 :
    encodeJsonString (utf8 s) = asciiBytes (Json.renderStr (cps s)) := by
  rw [encodeJsonString, escapeBytes_utf8, Json.renderStr, Json.asciiBytes_cons,
    Json.asciiBytes_append]
  rfl

/-! ### Objects -/

theorem lit_eq_utf8 {s : String} (h : s.toList.all (·.toNat < 0x80)) : lit s = utf8 s := by
  unfold lit utf8
  revert h
  induction s.toList with
  | nil => exact fun _ => rfl
  | cons c l ih =>
    intro h
    rw [all_cons, Bool.and_eq_true, decide_eq_true_eq] at h
    rw [map_cons, flatMap_cons, ih h.2]
    rcases utf8EncodeChar_cases c with ⟨-, hc⟩ | ⟨_, _, _, _, -, hge, -⟩ |
      ⟨_, _, _, _, _, _, -, hge, -⟩ | ⟨_, _, _, _, _, _, _, _, -, hge, -, -⟩
    · rw [hc]
      rfl
    all_goals omega

/-- A member as the builder writes it, and the member of the object that it stands for. -/
inductive Writes : String × Bytes → Str × Value → Prop
  | mk {name : String} {value : Bytes} {v : Value} (text : value = asciiBytes (Json.render v))
      (ascii : name.toList.all (·.toNat < 0x80) := by decide) : Writes (name, value) (cps name, v)

theorem key_eq {name : String} (h : name.toList.all (·.toNat < 0x80)) :
    key name = asciiBytes (Json.renderStr (cps name) ++ [':'.toNat]) := by
  rw [key, lit_eq_utf8 h, encodeJsonString_utf8, Json.asciiBytes_append]
  rfl

theorem members_cons (name : String) (value : Bytes) (rest : List (String × Bytes)) :
    members ((name, value) :: rest) =
      key name ++ value ++ (if rest = [] then [] else lit "," ++ members rest) := by
  cases rest with
  | nil =>
    rw [if_pos rfl, append_nil]
    rfl
  | cons w ws =>
    rw [if_neg (cons_ne_nil w ws), ← append_assoc]
    rfl

variable {ws : List (String × Bytes)} {kvs : List (Str × Value)}

theorem members_tail (h : List.Forall₂ Writes ws kvs) :
    (if ws = [] then [] else lit "," ++ members ws) ++ lit "\x7d" =
      asciiBytes (Json.renderMembers kvs) := by
  induction h with
  | nil => rfl
  | @cons w kv ws kvs hw _ ih =>
    obtain ⟨rfl, hascii⟩ := hw
    rw [if_neg (cons_ne_nil _ _), members_cons, append_assoc, append_assoc, ih,
      key_eq hascii, Json.renderMembers]
    simp only [Json.asciiBytes_append, Json.asciiBytes_cons, append_assoc, cons_append]
    rfl

/-- **An object written member by member.** -/
theorem members_eq {w : String × Bytes} (h : List.Forall₂ Writes (w :: ws) kvs) :
    lit "\x7b" ++ members (w :: ws) ++ lit "\x7d" = asciiBytes (Json.render (.obj kvs)) := by
  cases h with
  | @cons _ kv _ kvs hw hws =>
    obtain ⟨rfl, hascii⟩ := hw
    rw [members_cons, append_assoc, append_assoc, members_tail hws, key_eq hascii,
      Json.render]
    simp only [Json.asciiBytes_append, Json.asciiBytes_cons, append_assoc, cons_append]
    rfl

theorem writes_text {name s : String} (h : name.toList.all (·.toNat < 0x80) := by decide) :
    Writes (name, encodeJsonString (utf8 s)) (cps name, .str (cps s)) :=
  .mk (encodeJsonString_utf8 s) h

theorem dims_eq (shape : List UInt32) :
    lit "[" ++ dims shape ++ lit "]" =
      asciiBytes (Json.render (.arr (shape.map fun d : UInt32 => Value.int d.toNat))) := by
  have hdims : ∀ shape : List UInt32, dims shape =
      asciiBytes (Json.joinComma (shape.map fun d => Json.decimal d.toNat)) := by
    intro shape
    induction shape with
    | nil => rfl
    | cons d shape ih =>
      cases shape with
      | nil => rfl
      | cons e shape =>
        have hstep : dims (d :: e :: shape) = uintValue d.toNat ++ lit "," ++ dims (e :: shape) :=
          rfl
        have hjoin : Json.joinComma ((d :: e :: shape).map fun d => Json.decimal d.toNat) =
            Json.decimal d.toNat ++ ','.toNat ::
              Json.joinComma ((e :: shape).map fun d => Json.decimal d.toNat) := rfl
        rw [hstep, ih, hjoin, Json.asciiBytes_append, Json.asciiBytes_cons, append_assoc]
        rfl
  rw [Json.render_arr, hdims, map_map, Json.asciiBytes_cons, Json.asciiBytes_append]
  rfl

/-! ### A record entry -/

/-- The values of a `CaptureMetadata` in the record of the builder. -/
def RecordMetadata.ofCapture (m : CaptureMetadata) : RecordMetadata String where
  captureId := m.captureId.val
  tenantId := m.tenantId.val
  experimentId := m.experimentId.val
  runId := m.runId.val
  sessionId := m.sessionId.val
  requestId := m.requestId.val
  sequenceId := m.sequenceId.val
  modelId := m.modelId.val
  modelRevision := m.modelRevision.val
  adapterRevision := m.adapterRevision.map Text.val
  capturePolicyVersion := m.capturePolicyVersion.val
  hookName := m.hookName.val
  layerNumber := Int64.ofInt m.layerNumber.val
  producerRank := m.producerRank.toUInt64
  stepNumber := m.stepNumber
  tokenStart := m.tokenStart
  tokenEnd := m.tokenEnd
  batchPosition := m.batchPosition.toUInt64
  dtype := m.dtype.name
  shape := m.shape.dims.map UInt32.ofNat
  capturedAtNs := m.capturedAtNs

theorem sorted_fieldNames : fieldNames.insertionSort (fun a b => cps a ≤ cps b) = [
    "adapter_revision", "batch_position", "capture_id", "capture_policy_version",
    "captured_at_ns", "dtype", "experiment_id", "hook_name", "layer_number", "model_id",
    "model_revision", "producer_rank", "request_id", "run_id", "sequence_id", "session_id",
    "shape", "step_number", "tenant_id", "token_end", "token_start"] := by
  decide +kernel

theorem sortMembers_toMapping (m : CaptureMetadata) : Json.sortMembers m.toMapping = [
    (cps "adapter_revision",
      Json.sortKeys ((m.adapterRevision.map fun t => Value.str (cps t.val)).getD .null)),
    (cps "batch_position", .int m.batchPosition.toNat),
    (cps "capture_id", .str (cps m.captureId.val)),
    (cps "capture_policy_version", .str (cps m.capturePolicyVersion.val)),
    (cps "captured_at_ns", .int m.capturedAtNs.toNat),
    (cps "dtype", .str (cps m.dtype.name)),
    (cps "experiment_id", .str (cps m.experimentId.val)),
    (cps "hook_name", .str (cps m.hookName.val)),
    (cps "layer_number", .int m.layerNumber.val),
    (cps "model_id", .str (cps m.modelId.val)),
    (cps "model_revision", .str (cps m.modelRevision.val)),
    (cps "producer_rank", .int m.producerRank.toNat),
    (cps "request_id", .str (cps m.requestId.val)),
    (cps "run_id", .str (cps m.runId.val)),
    (cps "sequence_id", .str (cps m.sequenceId.val)),
    (cps "session_id", .str (cps m.sessionId.val)),
    (cps "shape", Json.sortKeys (.arr (m.shape.dims.map fun d : Nat => Value.int d))),
    (cps "step_number", .int m.stepNumber.toNat),
    (cps "tenant_id", .str (cps m.tenantId.val)),
    (cps "token_end", .int m.tokenEnd.toNat),
    (cps "token_start", .int m.tokenStart.toNat)] := by
  have hnames : m.toMapping = fieldNames.map fun name => (cps name, field m.toMapping name) := rfl
  rw [hnames, Json.sortMembers_map cps, sorted_fieldNames]
  rfl

theorem toInt_layerNumber (n : LayerNumber) : (ofInt n.val).toInt = n.val := by
  have := n.bounds
  exact toInt_ofInt_of_le (by omega) (by omega)

theorem toNat_dims (s : Shape) :
    (s.dims.map UInt32.ofNat).map (fun d : UInt32 => Value.int d.toNat) =
      s.dims.map fun d : Nat => Value.int d := by
  rw [map_map]
  refine map_congr_left fun d hd => ?_
  have := s.dims_le d hd
  rw [Function.comp_apply, UInt32.toNat_ofNat_of_lt' (by show d < 2 ^ 32; omega)]

theorem metadataRow_eq (m : CaptureMetadata) :
    metadataRow ((ofCapture m).map utf8) =
      asciiBytes (Json.dumps (.obj m.toMapping)) := by
  have hadapter : Option.elim (((ofCapture m).map utf8).adapterRevision)
      (lit "null") encodeJsonString = asciiBytes (Json.render
        (Json.sortKeys ((m.adapterRevision.map fun t => Value.str (cps t.val)).getD .null))) := by
    cases h : m.adapterRevision with
    | none =>
      simp only [RecordMetadata.map, ofCapture, h]
      rfl
    | some t =>
      simp only [RecordMetadata.map, ofCapture, h]
      exact encodeJsonString_utf8 t.val
  have hshape : lit "[" ++ dims (m.shape.dims.map UInt32.ofNat) ++ lit "]" = asciiBytes (Json.render
      (Json.sortKeys (.arr (m.shape.dims.map fun d : Nat => Value.int d)))) := by
    rw [dims_eq, toNat_dims, Json.sortKeys, Json.sortElems_eq_map, map_map]
    rfl
  have hlayer : intValue (ofInt m.layerNumber.val).toInt =
      asciiBytes (Json.render (.int m.layerNumber.val)) := by
    rw [toInt_layerNumber]
    rfl
  rw [Json.dumps, Json.sortKeys, sortMembers_toMapping, metadataRow]
  exact members_eq (.cons (.mk hadapter) (.cons (.mk rfl) (.cons writes_text (.cons writes_text
    (.cons (.mk rfl) (.cons writes_text (.cons writes_text (.cons writes_text (.cons (.mk hlayer)
    (.cons writes_text (.cons writes_text (.cons (.mk rfl) (.cons writes_text (.cons writes_text
    (.cons writes_text (.cons writes_text (.cons (.mk hshape) (.cons (.mk rfl) (.cons writes_text
    (.cons (.mk rfl) (.cons (.mk rfl) .nil)))))))))))))))))))))

/-- **The entry of a record is the text of `_record_mapping`.** -/
theorem encodeRecordRow_eq (item : IndexedRecord) (hcodec : item.codec = "none")
    (hchecksum : item.checksum.toList.all (·.toNat < 0x80)) :
    encodeRecordRow ((ofCapture item.metadata).map utf8) item.offset
        item.storedLength item.decodedLength "none" (lit item.checksum) =
      encodeJson (.obj (recordMapping item)) := by
  have hsort : Json.sortMembers (recordMapping item) = [
      (cps "checksum", .str (cps item.checksum)),
      (cps "codec", .str (cps item.codec)),
      (cps "decoded_length", .int item.decodedLength),
      (cps "metadata", Json.sortKeys (.obj item.metadata.toMapping)),
      (cps "offset", .int item.offset),
      (cps "stored_length", .int item.storedLength)] := rfl
  have hnone : lit "none" = utf8 "none" := lit_eq_utf8 (by decide)
  rw [encodeJson, Json.dumps, Json.sortKeys, hsort, encodeRecordRow, lit_eq_utf8 hchecksum, hcodec,
    hnone]
  exact members_eq (.cons writes_text (.cons writes_text (.cons (.mk rfl)
    (.cons (.mk (metadataRow_eq item.metadata)) (.cons (.mk rfl) (.cons (.mk rfl) .nil))))))

/-! ### Validation -/

theorem validUtf8_char (c : Char) (rest : Bytes) :
    validUtf8 (String.utf8EncodeChar c ++ rest) = validUtf8 rest := by
  rcases utf8EncodeChar_cases c with ⟨hlt, hc⟩ | ⟨a, ha, b, hb, -, -, hc⟩ |
    ⟨a, ha, b, hb, d, hd, -, -, hc⟩ | ⟨a, ha, b, hb, d, hd, e, he, -, -, -, hc⟩ <;> rw [hc]
  · have hbyte : UInt8.ofNat c.toNat < 0x80 := by
      rw [UInt8.lt_iff_toNat_lt, UInt8.toNat_ofNat_of_lt' (by show c.toNat < 256; omega)]
      exact hlt
    rw [singleton_append, validUtf8.eq_def]
    simp only [if_pos hbyte]
  · obtain ⟨h1, h2, -⟩ := lead2 a ha
    rw [cons_append, singleton_append, validUtf8.eq_def]
    simp only [if_neg h1, if_pos h2, (continuation b hb).1, Bool.true_and]
  · obtain ⟨h1, h2, h3, -⟩ := lead3 a ha
    rw [cons_append, cons_append, singleton_append, validUtf8.eq_def]
    simp only [if_neg h1, if_neg h2, if_pos h3, (continuation b hb).1, (continuation d hd).1,
      Bool.true_and]
  · obtain ⟨h1, h2, h3, h4, -⟩ := lead4 a ha
    rw [cons_append, cons_append, cons_append, singleton_append,
      validUtf8.eq_def]
    simp only [if_neg h1, if_neg h2, if_neg h3, if_pos h4, (continuation b hb).1,
      (continuation d hd).1, (continuation e he).1, Bool.true_and]

theorem validUtf8_utf8 : validUtf8 (utf8 s) = true := by
  unfold utf8
  induction s.toList with
  | nil => rfl
  | cons c l ih => rw [flatMap_cons, validUtf8_char, ih]

theorem validText_utf8 :
    validText (utf8 s) false = true ↔ s ≠ "" ∧ s.utf8ByteSize ≤ Capture.textLimit := by
  unfold validText
  rw [validUtf8_utf8, length_utf8]
  by_cases hs : s = ""
  · subst hs
    simp [utf8]
  · have hne : (utf8 s).isEmpty = false := by
      rw [isEmpty_eq_false_iff]
      exact fun h => hs (utf8_eq_nil.mp h)
    rw [hne, if_neg Bool.false_ne_true]
    split
    next hlen =>
      exact ⟨fun h => absurd h Bool.false_ne_true, fun h => absurd h.2 (Nat.not_le.mpr hlen)⟩
    next hlen =>
      exact ⟨fun _ => ⟨hs, Nat.le_of_not_lt hlen⟩, fun _ => rfl⟩

/-- A text that the builder accepts is one that the reference accepts. -/
theorem exists_text {s : String} : validText (utf8 s) false = true ↔ ∃ t : Text, t.val = s := by
  rw [validText_utf8]
  exact ⟨fun h => ⟨⟨s, h.1, h.2⟩, rfl⟩, fun ⟨t, ht⟩ => ht ▸ ⟨t.ne_empty, t.size_le⟩⟩

theorem exists_optionalText {s : Option String} :
    validText ((s.map utf8).getD []) (s.map utf8).isNone = true ↔
      ∃ t : Option Text, t.map Text.val = s := by
  cases s with
  | none => exact ⟨fun _ => ⟨none, rfl⟩, fun _ => rfl⟩
  | some s =>
    refine (exists_text (s := s)).trans ⟨fun ⟨t, ht⟩ => ⟨some t, congrArg some ht⟩, ?_⟩
    rintro ⟨t, ht⟩
    obtain ⟨u, -, hu⟩ := Option.map_eq_some_iff.mp ht
    exact ⟨u, hu⟩

theorem exists_dtype {s : String} :
    dtypeSupported (utf8 s) = true ↔ ∃ d : DType, d.name = s := by
  have hascii : ∀ name ∈ dtypes, name.toList.all (·.toNat < 0x80) = true := by decide
  have hnames : ∀ name ∈ dtypes, name ∈ DType.all.map DType.name := by decide
  rw [dtypeSupported, any_eq_true]
  constructor
  · rintro ⟨name, hname, heq⟩
    rw [decide_eq_true_eq, lit_eq_utf8 (hascii name hname)] at heq
    obtain ⟨d, -, hd⟩ := mem_map.mp (hnames name hname)
    exact ⟨d, hd.trans (utf8_injective heq).symm⟩
  · rintro ⟨d, rfl⟩
    have hmem : d.name ∈ dtypes := by cases d <;> decide
    exact ⟨d.name, hmem, decide_eq_true (lit_eq_utf8 (hascii _ hmem)).symm⟩

theorem ite_badArgument_eq_ok {c : Prop} [Decidable c] {x : Status} :
    (if c then .badArgument else x) = .ok ↔ ¬ c ∧ x = .ok := by
  by_cases h : c
  · simp [h]
  · simp [h]

theorem toUInt32_toUInt64 {n : UInt64} (h : ¬ 0xFFFFFFFF < n) : n.toUInt32.toUInt64 = n := by
  rw [UInt64.lt_iff_toNat_lt] at h
  have hn : n.toNat < 2 ^ 32 := by
    have : (0xFFFFFFFF : UInt64).toNat = 2 ^ 32 - 1 := rfl
    omega
  rw [← UInt64.toNat_inj, UInt32.toNat_toUInt64, UInt64.toNat_toUInt32, Nat.mod_eq_of_lt hn]

theorem not_lt_toUInt64 (n : UInt32) : ¬ 0xFFFFFFFF < n.toUInt64 := by
  have := n.toNat_lt
  rw [UInt64.not_lt, UInt64.le_iff_toNat_le, UInt32.toNat_toUInt64]
  show n.toNat ≤ 2 ^ 32 - 1
  omega

/-- **The builder accepts what `CaptureMetadata` accepts.** -/
theorem validateMetadata_eq_ok (m : RecordMetadata String) :
    validateMetadata (m.map utf8) = .ok ↔ ∃ md, m = ofCapture md := by
  simp only [validateMetadata, ite_badArgument_eq_ok]
  simp only [RecordMetadata.map, Bool.or_eq_true, Bool.not_eq_eq_eq_not, Bool.not_true, not_or,
    Bool.not_eq_false, exists_text, exists_optionalText, exists_dtype, and_true, any_eq_true,
    decide_eq_true_eq, not_exists, not_and]
  constructor
  · rintro ⟨⟨⟨⟨⟨⟨⟨⟨⟨⟨⟨⟨⟨captureId, h1⟩, tenantId, h2⟩, experimentId, h3⟩, runId, h4⟩,
      sessionId, h5⟩, requestId, h6⟩, sequenceId, h7⟩, modelId, h8⟩, modelRevision, h9⟩,
      capturePolicyVersion, h10⟩, hookName, h11⟩, adapterRevision, h12⟩, ⟨dtype, h13⟩, hrank,
      hdims, ⟨hrank32, hbatch32⟩, ⟨hlow, hhigh⟩, htokens⟩
    have hshape : ∀ d ∈ m.shape.map UInt32.toNat, d ≤ 2 ^ 31 - 1 := by
      intro d hd
      obtain ⟨x, hx, rfl⟩ := mem_map.mp hd
      exact UInt32.le_iff_toNat_le.mp (UInt32.not_lt.mp (hdims x hx))
    have hback : (m.shape.map UInt32.toNat).map UInt32.ofNat = m.shape := by
      rw [map_map]
      exact (map_congr_left fun d _ => UInt32.ofNat_toNat).trans (map_id _)
    have hlayer : -1 ≤ m.layerNumber.toInt ∧ m.layerNumber.toInt ≤ 2 ^ 31 - 1 :=
      ⟨le_iff_toInt_le.mp (Int64.not_lt.mp hlow),
        le_iff_toInt_le.mp (Int64.not_lt.mp hhigh)⟩
    refine ⟨⟨captureId, tenantId, experimentId, runId, sessionId, requestId, sequenceId, modelId,
      modelRevision, adapterRevision, capturePolicyVersion, hookName, ⟨m.layerNumber.toInt, hlayer⟩,
      m.producerRank.toUInt32, m.stepNumber, m.tokenStart, m.tokenEnd, m.batchPosition.toUInt32,
      dtype, ⟨m.shape.map UInt32.toNat, by rw [length_map]; exact Nat.not_lt.mp hrank, hshape⟩,
      m.capturedAtNs, UInt64.not_lt.mp htokens⟩, ?_⟩
    cases m
    simp only [ofCapture, mk.injEq, toUInt32_toUInt64 hrank32,
      toUInt32_toUInt64 hbatch32, hback, ofInt_toInt, and_true, true_and]
    exact ⟨h1.symm, h2.symm, h3.symm, h4.symm, h5.symm, h6.symm, h7.symm, h8.symm, h9.symm,
      h12.symm, h10.symm, h11.symm, h13.symm⟩
  · rintro ⟨md, rfl⟩
    refine ⟨⟨⟨⟨⟨⟨⟨⟨⟨⟨⟨⟨⟨md.captureId, rfl⟩, md.tenantId, rfl⟩, md.experimentId, rfl⟩,
      md.runId, rfl⟩, md.sessionId, rfl⟩, md.requestId, rfl⟩, md.sequenceId, rfl⟩, md.modelId, rfl⟩,
      md.modelRevision, rfl⟩, md.capturePolicyVersion, rfl⟩, md.hookName, rfl⟩,
      md.adapterRevision, rfl⟩, ⟨md.dtype, rfl⟩, ?_, ?_, ⟨?_, ?_⟩, ⟨?_, ?_⟩,
      UInt64.not_lt.mpr md.tokens_le⟩
    · rw [ofCapture, length_map]
      exact Nat.not_lt.mpr md.shape.rank_le
    · intro x hx
      obtain ⟨d, hd, rfl⟩ := mem_map.mp hx
      have hle := md.shape.dims_le d hd
      rw [UInt32.not_lt, UInt32.le_iff_toNat_le,
        UInt32.toNat_ofNat_of_lt' (by show d < 2 ^ 32; omega)]
      exact hle
    · exact not_lt_toUInt64 md.producerRank
    · exact not_lt_toUInt64 md.batchPosition
    · rw [Int64.not_lt, le_iff_toInt_le, ofCapture, toInt_layerNumber]
      exact md.layerNumber.bounds.1
    · rw [Int64.not_lt, le_iff_toInt_le, ofCapture, toInt_layerNumber]
      exact md.layerNumber.bounds.2

/-! ### The constructor of the reference -/

/-- The keyword arguments of `CaptureMetadata(...)`, in the order of its fields. -/
def RecordMetadata.toMapping (m : RecordMetadata String) : List (Str × Value) := [
  (cps "capture_id", .str (cps m.captureId)),
  (cps "tenant_id", .str (cps m.tenantId)),
  (cps "experiment_id", .str (cps m.experimentId)),
  (cps "run_id", .str (cps m.runId)),
  (cps "session_id", .str (cps m.sessionId)),
  (cps "request_id", .str (cps m.requestId)),
  (cps "sequence_id", .str (cps m.sequenceId)),
  (cps "model_id", .str (cps m.modelId)),
  (cps "model_revision", .str (cps m.modelRevision)),
  (cps "adapter_revision", (m.adapterRevision.map fun t => Value.str (cps t)).getD .null),
  (cps "capture_policy_version", .str (cps m.capturePolicyVersion)),
  (cps "hook_name", .str (cps m.hookName)),
  (cps "layer_number", .int m.layerNumber.toInt),
  (cps "producer_rank", .int m.producerRank.toNat),
  (cps "step_number", .int m.stepNumber.toNat),
  (cps "token_start", .int m.tokenStart.toNat),
  (cps "token_end", .int m.tokenEnd.toNat),
  (cps "batch_position", .int m.batchPosition.toNat),
  (cps "dtype", .str (cps m.dtype)),
  (cps "shape", .arr (m.shape.map fun d : UInt32 => Value.int d.toNat)),
  (cps "captured_at_ns", .int m.capturedAtNs.toNat)]

/-- `CaptureMetadata(...)` on those arguments: the checks of `__post_init__`. -/
def construct (m : RecordMetadata String) : Except MetadataError CaptureMetadata :=
  fromMapping m.toMapping

theorem toMapping_ofCapture (md : CaptureMetadata) :
    (ofCapture md).toMapping = md.toMapping := by
  simp only [toMapping, ofCapture, toInt_layerNumber, toNat_dims,
    Option.map_map, UInt32.toNat_toUInt64]
  rfl

theorem eq_optionalText {s : Option String} {t : Option Text}
    (h : (s.map fun s => Value.str (cps s)).getD .null =
      (t.map fun t => Value.str (cps t.val)).getD .null) : s = t.map Text.val := by
  cases s with
  | none =>
    cases t with
    | none => rfl
    | some t => cases h
  | some s =>
    cases t with
    | none => cases h
    | some t => exact congrArg some (Json.cps_injective (Value.str.inj h))

theorem eq_dims {shape : List UInt32} {dims : List Nat}
    (h : shape.map (fun d : UInt32 => Value.int d.toNat) = dims.map fun d : Nat => Value.int d) :
    shape = dims.map UInt32.ofNat := by
  have hinj : Function.Injective fun d : Nat => Value.int d :=
    fun a b h => Int.ofNat_inj.mp (Value.int.inj h)
  have hdims : shape.map UInt32.toNat = dims := by
    apply map_injective_iff.mpr hinj
    rw [map_map]
    exact h
  rw [← hdims, map_map]
  exact (map_id _).symm.trans (map_congr_left fun d _ => UInt32.ofNat_toNat.symm)

theorem construct_eq_ok {m : RecordMetadata String} {md : CaptureMetadata} :
    construct m = .ok md ↔ m = ofCapture md := by
  rw [construct, Capture.fromMapping_eq_ok]
  constructor
  · intro h
    have hvalues : m.toMapping.map (some ∘ Prod.snd) = md.toMapping.map (some ∘ Prod.snd) :=
      map_congr_left (g := fun name => some (field md.toMapping name)) h
    simp only [toMapping, CaptureMetadata.toMapping, map_cons, map_nil,
      List.cons.injEq, Function.comp_apply, Option.some.injEq, Value.str.injEq, Value.int.injEq,
      Value.arr.injEq, Json.cps_injective.eq_iff, Int.ofNat_inj, and_true] at hvalues
    obtain ⟨h1, h2, h3, h4, h5, h6, h7, h8, h9, hadapter, h11, h12, hlayer, hrank, hstep, hstart,
      hend, hbatch, hdtype, hshape, hcaptured⟩ := hvalues
    cases m
    simp only [ofCapture, mk.injEq]
    refine ⟨h1, h2, h3, h4, h5, h6, h7, h8, h9, eq_optionalText hadapter, h11, h12, ?_, ?_,
      UInt64.toNat_inj.mp hstep, UInt64.toNat_inj.mp hstart, UInt64.toNat_inj.mp hend, ?_, hdtype,
      eq_dims hshape, UInt64.toNat_inj.mp hcaptured⟩
    · rw [← hlayer, ofInt_toInt]
    · rw [← UInt64.toNat_inj, UInt32.toNat_toUInt64, ← hrank]
    · rw [← UInt64.toNat_inj, UInt32.toNat_toUInt64, ← hbatch]
  · rintro rfl
    rw [toMapping_ofCapture]
    exact fun name hname => md.lookup_toMapping hname

end Dmi.Native
