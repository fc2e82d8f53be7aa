import Dmi.Capture.Pack.RoundTrip
import Dmi.Native.PackId

/-!
# The native builder writes the packs of the reference

Both writers run on the same calls: `Append` of a record whose texts are strings and whose
numbers are those of the C++ fields, and `Seal`.  On the reference side the record is first
constructed (`CaptureMetadata`, then `CaptureRecord`), and a constructor that raises refuses
every call.

`Sim` relates the two states between calls: the same footer pieces and counters, the same
capture ids in a set and in a sorted vector, and a buffer that the builder pads already behind a
record where the reference pads in front of the next one.  One call keeps the relation and comes
to the same outcome (`Sim.perform`), so whole runs do.
-/

namespace Dmi.Native

open List PackBuilder Struct RecordMetadata Status

open Json (asciiBytes cps)
open Capture (CaptureMetadata CaptureRecord PackWriter Uuid Text uuidText alignedLength align
  maxFooterBytes maxRecordsLimit rsplitOnce footerMapping encodeJson recordMapping)

/-! ### Calls and outcomes -/

/-- A record as the two writers get it.  A payload in memory has less than `2 ^ 63` bytes. -/
structure RawRecord where
  metadata : RecordMetadata String
  payload : Bytes
  length_lt : payload.length < 2 ^ 63

inductive Op where
  | appendRecord (r : RawRecord)
  | sealPack

inductive Outcome where
  | accepted
  | refused
  | sealed (p : SealedPack)
  deriving DecidableEq

/-- The payload has the length that dtype and shape announce. -/
def Op.Sized : Op → Prop
  | .appendRecord r => ∀ md, construct r.metadata = .ok md → r.payload.length = md.logicalBytes
  | .sealPack => True

def PackBuilder.perform (b : PackBuilder) : Op → Outcome × PackBuilder
  | .appendRecord r =>
    match b.append (r.metadata.map utf8) r.payload with
    | (.ok, b) => (.accepted, b)
    | (_, b) => (.refused, b)
  | .sealPack =>
    match b.seal with
    | (.ok p, b) => (.sealed p, b)
    | (.error _, b) => (.refused, b)

def PackBuilder.run (b : PackBuilder) : List Op → List Outcome
  | [] => []
  | op :: ops => (b.perform op).1 :: (b.perform op).2.run ops

/-- `CaptureRecord(CaptureMetadata(...), payload)`. -/
def RawRecord.construct? (r : RawRecord) : Option CaptureRecord :=
  match construct r.metadata with
  | .error _ => none
  | .ok md =>
    if h : r.payload.length = md.logicalBytes then some ⟨md, r.payload, h, r.length_lt⟩ else none

/-- The pack of the reference, with its texts as bytes. -/
def SealedPack.ofReference (p : Capture.SealedPack) : SealedPack where
  packId := utf8 p.packId
  createdAtNs := UInt64.ofNat p.createdAtNs
  data := p.data
  recordCount := p.recordCount
  footerOffset := p.footerOffset
  checksum := utf8 p.checksum

def referencePerform (w : PackWriter) : Op → Outcome × PackWriter
  | .appendRecord r =>
    match r.construct? with
    | none => (.refused, w)
    | some record =>
      match w.append record with
      | .ok w => (.accepted, w)
      | .error _ => (.refused, w)
  | .sealPack =>
    match w.seal with
    | (.ok p, w) => (.sealed (.ofReference p), w)
    | (.error _, w) => (.refused, w)

def referenceRun (w : PackWriter) : List Op → List Outcome
  | [] => []
  | op :: ops => (referencePerform w op).1 :: referenceRun (referencePerform w op).2 ops

/-- `PackWriter(...)`; `none` is `ValueError`. -/
def newWriter (unicode : Char → Char) (packId : String)
    (createdAtNs maxPackBytes maxRecords : Nat) : Option PackWriter :=
  match Uuid.ofText unicode packId with
  | none => none
  | some u => (PackWriter.init u createdAtNs maxPackBytes maxRecords).toOption

/-- The calls on what `PackWriter(...)` came to. -/
def referenceOutcomes (w : Option PackWriter) (ops : List Op) : List Outcome :=
  match w with
  | none => ops.map fun _ => .refused
  | some w => referenceRun w ops

/-! ### Alignment, header and trailer -/

theorem alignUp_eq (n : Nat) : alignUp n = alignedLength n := by
  unfold alignUp alignedLength Capture.packAlignment
  omega

theorem alignedLength_alignedLength (n : Nat) :
    alignedLength (alignedLength n) = alignedLength n := by
  unfold alignedLength Capture.packAlignment
  omega

theorem append_replicate_alignedLength (buffer : Bytes) :
    buffer ++ List.replicate (alignedLength buffer.length - buffer.length) 0 = align buffer := by
  rw [align, alignedLength, Nat.add_sub_cancel_left]

theorem pack_header (u : Uuid) (n : UInt64) :
    pack Capture.headerFormat (Capture.headerCells u n.toNat) = some (header u.bytes n) := by
  have hn : n.toNat < 256 ^ 8 := n.toNat_lt
  have hheader : Capture.headerSize = 64 := rfl
  simp only [Capture.headerFormat, Capture.headerCells, pack, hheader,
    packCell_raw (show Capture.headerMagic.length = 8 from rfl),
    packCell_uint (show Capture.packMajorVersion < 256 ^ 2 by decide),
    packCell_uint (show Capture.packMinorVersion < 256 ^ 2 by decide),
    packCell_uint (show 64 < 256 ^ 4 by decide), packCell_raw u.length_eq,
    packCell_uint hn, packCell_uint (show 0 < 256 ^ 4 by decide),
    packCell_raw (show (replicate 20 (0 : UInt8)).length = 20 from rfl),
    Option.bind_eq_bind, Option.bind_some, Option.pure_def, append_nil, header,
    append_assoc]

theorem pack_trailer {footerOffset : Nat} {footer : Bytes} (hoffset : footerOffset < 2 ^ 64)
    (hfooter : footer.length < 2 ^ 64) (body : Bytes) :
    pack Capture.trailerFormat (Capture.trailerCells footerOffset footer body) =
      some (trailer footerOffset footer body) := by
  have hcrc : (crc32 footer).toNat < 256 ^ 4 := (crc32 footer).toNat_lt
  simp only [Capture.trailerFormat, Capture.trailerCells, pack,
    packCell_raw (show Capture.trailerMagic.length = 8 from rfl),
    packCell_uint (show Capture.packMajorVersion < 256 ^ 2 by decide),
    packCell_uint (show Capture.packMinorVersion < 256 ^ 2 by decide),
    packCell_uint (show footerOffset < 256 ^ 8 from hoffset),
    packCell_uint (show footer.length < 256 ^ 8 from hfooter), packCell_uint hcrc,
    packCell_raw (length_sha256 body), Option.bind_eq_bind, Option.bind_some,
    Option.pure_def, append_nil, trailer, crc32Sliced_eq, append_assoc]

/-! ### The footer of an empty pack -/

variable {b : PackBuilder} {packId : String}

theorem emptyFooter_eq (h : b.packId = utf8 packId) :
    b.emptyFooter = encodeJson (.obj (footerMapping packId b.createdAtNs.toNat [])) := by
  rw [emptyFooter, h, encodeJsonString_utf8, encodeJson, Capture.dumps_footerMapping,
    Capture.footerHead]
  have h1 : lit "\x7b\"created_at_ns\":" = asciiBytes ('\x7b'.toNat ::
      (Json.renderStr (cps "created_at_ns") ++ [':'.toNat])) := by decide
  have h2 : lit ",\"format\":\"dmi-pack\",\"major_version\":" = asciiBytes (','.toNat ::
      (Json.renderStr (cps "format") ++ ':'.toNat :: (Json.renderStr (cps "dmi-pack") ++
        ','.toNat :: (Json.renderStr (cps "major_version") ++ [':'.toNat])))) := by decide
  have h3 : lit ",\"minor_version\":" = asciiBytes (','.toNat ::
      (Json.renderStr (cps "minor_version") ++ [':'.toNat])) := by decide
  have h4 : lit ",\"pack_id\":" = asciiBytes (','.toNat ::
      (Json.renderStr (cps "pack_id") ++ [':'.toNat])) := by decide
  have h5 : lit ",\"records\":[]\x7d" = asciiBytes (','.toNat ::
      (Json.renderStr (cps "records") ++ ':'.toNat :: '['.toNat :: [']'.toNat, '\x7d'.toNat])) := by
    decide
  rw [h1, h2, h3, h4, h5]
  simp only [uintValue, Json.asciiBytes_append, Json.asciiBytes_cons, append_assoc,
    cons_append, nil_append, map_nil, Json.joinComma]
  rfl

/-! ### The relation -/

/-- The states of the two writers between calls. -/
structure Sim (w : PackWriter) (b : PackBuilder) : Prop where
  sealed_eq : b.sealed = w.sealed
  packId_eq : b.packId = utf8 w.packId
  created_eq : w.createdAtNs = b.createdAtNs.toNat
  maxPackBytes_eq : w.maxPackBytes = b.maxPackBytes.toNat
  maxRecords_eq : w.maxRecords = b.maxRecords.toNat
  buffer_eq : w.sealed = false → b.buffer = align w.buffer
  json_eq : b.recordJson = w.recordJson
  jsonBytes_eq : b.recordJsonBytes = w.recordJsonBytes
  count_eq : b.recordCount = w.records.length
  ids_sorted : b.captureIds.Pairwise (· < ·)
  ids_eq : ∀ t : Text, utf8 t.val ∈ b.captureIds ↔ t ∈ w.captureIds
  pieces_eq : rsplitOnce (lit "[]") b.emptyFooter = some (w.footerPrefix, w.footerSuffix)
  prefix_ne : w.footerPrefix ≠ []
  /-- The caches are filled, or no record was accepted yet. -/
  caches : b.footerPrefixCache = [] ∧ b.recordCount = 0 ∨
    b.footerPrefixCache = w.footerPrefix ∧ b.footerSuffixCache = w.footerSuffix

variable {w : PackWriter}

theorem Sim.withCaches (h : Sim w b) :
    b.withCaches =
      { b with footerPrefixCache := w.footerPrefix, footerSuffixCache := w.footerSuffix } := by
  unfold PackBuilder.withCaches
  rcases h.caches with ⟨hempty, -⟩ | ⟨hfront, hback⟩
  · have hnil : b.footerPrefixCache.isEmpty = true := by rw [hempty, isEmpty_nil]
    rw [if_pos hnil, h.pieces_eq]
  · rw [if_neg]
    · cases b
      cases hfront
      cases hback
      rfl
    · rw [hfront, List.isEmpty_iff]
      exact h.prefix_ne

theorem Sim.filled (h : Sim w b) : Sim w
    { b with footerPrefixCache := w.footerPrefix, footerSuffixCache := w.footerSuffix } :=
  { h with pieces_eq := h.pieces_eq, caches := .inr ⟨rfl, rfl⟩ }

/-! ### One call -/

theorem hexString_ascii (data : Bytes) :
    (String.ofList (hexText data)).toList.all (·.toNat < 0x80) = true := by
  rw [String.toList_ofList]
  exact hexText_ascii data

theorem Sim.row_eq (h : Sim w b) (hopen : w.sealed = false) (r : CaptureRecord) :
    encodeRecordRow ((ofCapture r.metadata).map utf8) (alignUp b.buffer.length)
        r.payload.length r.payload.length "none" (checksumText r.payload) =
      encodeJson (.obj (recordMapping (w.indexed r))) := by
  have hoffset : alignUp b.buffer.length = (w.indexed r).offset := by
    rw [alignUp_eq, h.buffer_eq hopen, Capture.length_align, alignedLength_alignedLength]
    rfl
  have hchecksum : checksumText r.payload = lit (w.indexed r).checksum := by
    rw [checksumText, crc32Sliced_eq]
    rfl
  rw [hoffset, hchecksum]
  exact encodeRecordRow_eq (w.indexed r) rfl (hexString_ascii _)

theorem Sim.buffer_append (h : Sim w b) (hopen : w.sealed = false) (payload : Bytes) :
    b.buffer ++ List.replicate (alignUp b.buffer.length - b.buffer.length) 0 = align w.buffer ∧
    alignUp (alignUp b.buffer.length + payload.length) =
      alignedLength (align w.buffer ++ payload).length := by
  have hlen : alignUp b.buffer.length = b.buffer.length := by
    rw [alignUp_eq, h.buffer_eq hopen, Capture.length_align, alignedLength_alignedLength]
  rw [hlen, Nat.sub_self, replicate_zero, append_nil, h.buffer_eq hopen, alignUp_eq,
    length_append]
  exact ⟨rfl, rfl⟩

theorem Sim.accepted (h : Sim w b) (r : CaptureRecord) (hnew : r.metadata.captureId ∉ w.captureIds)
    (row : Bytes) :
    Sim { w with
        buffer := align w.buffer ++ r.payload
        records := w.records ++ [w.indexed r]
        recordJson := w.recordJson ++ [row]
        recordJsonBytes := w.recordJsonBytes + row.length
        captureIds := w.captureIds ++ [r.metadata.captureId] }
      { b with
        buffer := align (align w.buffer ++ r.payload)
        captureIds := (lowerBound b.captureIds (utf8 r.metadata.captureId.val)).1 ++
          utf8 r.metadata.captureId.val ::
            (lowerBound b.captureIds (utf8 r.metadata.captureId.val)).2
        recordJson := w.recordJson ++ [row]
        recordJsonBytes := w.recordJsonBytes + row.length
        recordCount := b.recordCount + 1
        footerPrefixCache := w.footerPrefix
        footerSuffixCache := w.footerSuffix } where
  sealed_eq := h.sealed_eq
  packId_eq := h.packId_eq
  created_eq := h.created_eq
  maxPackBytes_eq := h.maxPackBytes_eq
  maxRecords_eq := h.maxRecords_eq
  buffer_eq _ := rfl
  json_eq := rfl
  jsonBytes_eq := rfl
  count_eq := by
    rw [h.count_eq, length_append]
    rfl
  ids_sorted := pairwise_insert_lowerBound h.ids_sorted fun hmem => hnew ((h.ids_eq _).mp hmem)
  ids_eq t := by
    rw [mem_insert_lowerBound, h.ids_eq, mem_append, mem_singleton, or_comm]
    exact or_congr_right ⟨fun heq => Text.ext (utf8_injective heq), fun heq => heq ▸ rfl⟩
  pieces_eq := h.pieces_eq
  prefix_ne := h.prefix_ne
  caches := .inr ⟨rfl, rfl⟩

/-- **`Append` follows the reference**, on a record that could be constructed. -/
theorem Sim.append (h : Sim w b) (r : CaptureRecord) :
    (∃ w' b', w.append r = .ok w' ∧
      b.append ((ofCapture r.metadata).map utf8) r.payload = (.ok, b') ∧
        Sim w' b') ∨
    ∃ e st b', w.append r = .error e ∧ st ≠ .ok ∧
      b.append ((ofCapture r.metadata).map utf8) r.payload = (st, b') ∧
        Sim w b' := by
  have hvalid : validateMetadata ((ofCapture r.metadata).map utf8) = .ok :=
    (validateMetadata_eq_ok _).mpr ⟨r.metadata, rfl⟩
  have hid : ((ofCapture r.metadata).map utf8).captureId =
      utf8 r.metadata.captureId.val := rfl
  unfold PackWriter.append PackBuilder.append
  rw [h.sealed_eq, ← h.maxRecords_eq, h.count_eq, hvalid, hid]
  by_cases hsealed : w.sealed = true
  · right
    exact ⟨_, _, b, if_pos hsealed, noConfusion, if_pos hsealed, h⟩
  rw [if_neg hsealed, if_neg hsealed]
  by_cases hcount : w.maxRecords ≤ w.records.length
  · right
    exact ⟨_, _, b, if_pos hcount, noConfusion, if_pos hcount, h⟩
  rw [if_neg hcount, if_neg hcount, if_neg (not_not.mpr rfl)]
  have hdup : (lowerBound b.captureIds (utf8 r.metadata.captureId.val)).2.head? =
      some (utf8 r.metadata.captureId.val) ↔ r.metadata.captureId ∈ w.captureIds := by
    rw [head_lowerBound h.ids_sorted, h.ids_eq]
  by_cases hmem : r.metadata.captureId ∈ w.captureIds
  · right
    rw [if_pos hmem]
    exact ⟨_, _, b, rfl, noConfusion, if_pos (hdup.mpr hmem), h⟩
  have hopen : w.sealed = false := Bool.not_eq_true _ ▸ hsealed
  obtain ⟨hbuffer, hpadded⟩ := h.buffer_append hopen r.payload
  have hpaddedOffset : alignedLength ((w.indexed r).offset + r.payload.length) =
      alignUp (alignUp b.buffer.length + r.payload.length) := by
    rw [hpadded, length_append, Capture.length_align]
    rfl
  have hlower : lowerBound b.captureIds (utf8 r.metadata.captureId.val) =
    ((lowerBound b.captureIds (utf8 r.metadata.captureId.val)).1,
      (lowerBound b.captureIds (utf8 r.metadata.captureId.val)).2) := rfl
  rw [if_neg hmem, hlower]
  simp only [if_neg (mt hdup.mp hmem), h.row_eq hopen r, h.withCaches, h.json_eq, h.jsonBytes_eq,
    ← h.maxPackBytes_eq, hpaddedOffset, hbuffer, PackWriter.projectedFooter,
    ← Nat.add_assoc (w.footerPrefix.length + 2)]
  rw [hpadded, append_replicate_alignedLength]
  generalize hrow : encodeJson (.obj (recordMapping (w.indexed r))) = row
  have htrailer : Capture.trailerSize = 64 := rfl
  rw [htrailer]
  split_ifs with hsize
  · right
    refine ⟨_, _, _, rfl, noConfusion, rfl, ?_⟩
    rw [← h.json_eq, ← h.jsonBytes_eq]
    exact h.filled
  · left
    exact ⟨_, _, rfl, rfl, h.accepted r hmem row⟩

theorem PackBuilder.append_invalid (b : PackBuilder) {m : RecordMetadata String}
    (hm : ¬ ∃ md, m = ofCapture md) (payload : Bytes) :
    ∃ st, st ≠ .ok ∧ b.append (m.map utf8) payload = (st, b) := by
  have hvalid : validateMetadata (m.map utf8) ≠ .ok := mt (validateMetadata_eq_ok m).mp hm
  unfold PackBuilder.append
  split_ifs
  · exact ⟨_, noConfusion, rfl⟩
  · exact ⟨_, noConfusion, rfl⟩
  · exact ⟨_, hvalid, rfl⟩

theorem Sim.footer_eq (h : Sim w b) (hne : w.records ≠ []) : b.footer = w.footer := by
  have hcount : b.recordCount ≠ 0 := by
    rw [h.count_eq]
    exact fun hzero => hne (length_eq_zero_iff.mp hzero)
  rcases h.caches with ⟨-, hzero⟩ | ⟨hfront, hback⟩
  · exact absurd hzero hcount
  · rw [footer, PackWriter.footer, hfront, hback, h.json_eq]
    simp only [append_assoc]
    rfl

/-- **`Seal` follows the reference.** -/
theorem Sim.seal (h : Sim w b) :
    (∃ p w' b', w.seal = (.ok p, w') ∧ b.seal = (.ok (.ofReference p), b') ∧ Sim w' b') ∨
    ∃ e st, w.seal = (.error e, w) ∧ b.seal = (.error st, b) := by
  unfold PackWriter.seal PackBuilder.seal
  rw [h.sealed_eq]
  by_cases hsealed : w.sealed = true
  · right
    exact ⟨_, _, if_pos hsealed, if_pos hsealed⟩
  rw [if_neg hsealed, if_neg hsealed]
  have hzero : b.recordCount = 0 ↔ w.records = [] := by
    rw [h.count_eq, length_eq_zero_iff]
  by_cases hempty : w.records = []
  · right
    exact ⟨_, _, if_pos hempty, if_pos (hzero.mpr hempty)⟩
  rw [if_neg hempty, if_neg (mt hzero.mp hempty)]
  have hopen : w.sealed = false := Bool.not_eq_true _ ▸ hsealed
  have hoffset : alignUp b.buffer.length = alignedLength w.buffer.length := by
    rw [alignUp_eq, h.buffer_eq hopen, Capture.length_align, alignedLength_alignedLength]
  have htrailer : Capture.trailerSize = 64 := rfl
  have hbuffer := (h.buffer_append hopen []).1
  rw [hoffset] at hbuffer
  simp only [h.footer_eq hempty, hoffset, ← h.maxPackBytes_eq, htrailer, hbuffer]
  by_cases hfooter : maxFooterBytes < w.footer.length
  · right
    exact ⟨_, _, if_pos hfooter, if_pos hfooter⟩
  rw [if_neg hfooter, if_neg hfooter]
  by_cases hpack : w.maxPackBytes < alignedLength w.buffer.length + w.footer.length + 64
  · right
    exact ⟨_, _, if_pos hpack, if_pos hpack⟩
  rw [if_neg hpack, if_neg hpack]
  have hmax := b.maxPackBytes.toNat_lt
  rw [← h.maxPackBytes_eq] at hmax
  rw [pack_trailer (by omega) (by omega)]
  left
  refine ⟨_, _, { b with buffer := [], sealed := true }, rfl, ?_, ?_⟩
  · rw [SealedPack.ofReference, h.created_eq, UInt64.ofNat_toNat, h.packId_eq, h.count_eq,
      sha256Hex, ← lit_eq_utf8 (hexString_ascii _)]
  · exact { h with
      sealed_eq := rfl
      buffer_eq := fun hfalse => Bool.noConfusion hfalse
      pieces_eq := h.pieces_eq
      caches := h.caches }

theorem PackBuilder.perform_accepted {b' : PackBuilder} {r : RawRecord}
    (h : b.append (r.metadata.map utf8) r.payload = (.ok, b')) :
    b.perform (.appendRecord r) = (.accepted, b') := by
  rw [PackBuilder.perform, h]

theorem PackBuilder.perform_refused {b' : PackBuilder} {r : RawRecord} {st : Status}
    (h : b.append (r.metadata.map utf8) r.payload = (st, b')) (hst : st ≠ .ok) :
    b.perform (.appendRecord r) = (.refused, b') := by
  rw [PackBuilder.perform, h]
  cases st with
  | ok => exact absurd rfl hst
  | sealedState | recordLimit | duplicateId | capacity | empty | badArgument => rfl

/-- **One call comes to the same outcome** and keeps the relation. -/
theorem Sim.perform (h : Sim w b) {op : Op} (hop : op.Sized) :
    (b.perform op).1 = (referencePerform w op).1 ∧
      Sim (referencePerform w op).2 (b.perform op).2 := by
  cases op with
  | sealPack =>
    rcases h.seal with ⟨p, w', b', hw, hb, h'⟩ | ⟨e, st, hw, hb⟩
    · rw [PackBuilder.perform, hb, referencePerform, hw]
      exact ⟨rfl, h'⟩
    · rw [PackBuilder.perform, hb, referencePerform, hw]
      exact ⟨rfl, h⟩
  | appendRecord r =>
    cases hc : construct r.metadata with
    | error e =>
      have hm : ¬ ∃ md, r.metadata = ofCapture md := by
        rintro ⟨md, hmd⟩
        rw [construct_eq_ok.mpr hmd] at hc
        cases hc
      obtain ⟨st, hst, hb⟩ := b.append_invalid hm r.payload
      have hrecord : r.construct? = none := by rw [RawRecord.construct?, hc]
      rw [perform_refused hb hst, referencePerform, hrecord]
      exact ⟨rfl, h⟩
    | ok md =>
      have hmd := construct_eq_ok.mp hc
      have hlen := hop md hc
      have hrecord : r.construct? = some ⟨md, r.payload, hlen, r.length_lt⟩ := by
        rw [RawRecord.construct?, hc]
        exact dif_pos hlen
      rcases h.append ⟨md, r.payload, hlen, r.length_lt⟩ with
        ⟨w', b', hw, hb, h'⟩ | ⟨e, st, b', hw, hst, hb, h'⟩ <;> rw [← hmd] at hb
      · simp only [perform_accepted hb, referencePerform, hrecord, hw]
        exact ⟨trivial, h'⟩
      · simp only [perform_refused hb hst, referencePerform, hrecord, hw]
        exact ⟨trivial, h'⟩

theorem Sim.run (h : Sim w b) {ops : List Op}
    (hops : ∀ op ∈ ops, op.Sized) : b.run ops = referenceRun w ops := by
  induction ops generalizing w b with
  | nil => rfl
  | cons op ops ih =>
    obtain ⟨hout, h'⟩ := h.perform (hops op mem_cons_self)
    have htail : ∀ op ∈ ops, op.Sized := fun op hop => hops op (mem_cons_of_mem _ hop)
    rw [run, referenceRun, hout, ih h' htail]

/-! ### Construction -/

/-- The limits that `PackWriter` takes. -/
def LimitsAccepted (maxPackBytes maxRecords : UInt64) : Prop :=
  130 ≤ maxPackBytes.toNat ∧ 1 ≤ maxRecords.toNat

theorem length_header (u : Uuid) (n : UInt64) : (header u.bytes n).length = 64 :=
  length_pack (Capture.headerCells_exact u n.toNat) (pack_header u n)

theorem align_header (u : Uuid) (n : UInt64) : align (header u.bytes n) = header u.bytes n := by
  rw [align, length_header]
  exact append_nil _

theorem sim_new (unicode : Char → Char) {createdAtNs maxPackBytes maxRecords : UInt64}
    (hid : (parseUuid (utf8 packId)).isSome) (hlimits : LimitsAccepted maxPackBytes maxRecords)
    (hmax : maxRecords.toNat ≤ maxRecordsLimit) :
    ∃ w, newWriter unicode packId createdAtNs.toNat maxPackBytes.toNat maxRecords.toNat = some w ∧
      Sim w (new (utf8 packId) createdAtNs maxPackBytes maxRecords) := by
  obtain ⟨⟨bytes, id⟩, hparse⟩ := Option.isSome_iff_exists.mp hid
  obtain ⟨u, hu, rfl, rfl⟩ := parseUuid_spec unicode hparse
  have hnew : new (utf8 packId) createdAtNs maxPackBytes maxRecords = {
      packId := utf8 (uuidText u.bytes)
      uuid := u.bytes
      createdAtNs := createdAtNs
      maxPackBytes := maxPackBytes
      maxRecords := maxRecords
      buffer := header u.bytes createdAtNs
      recordJson := []
      recordJsonBytes := 0
      recordCount := 0
      captureIds := []
      footerPrefixCache := []
      footerSuffixCache := []
      sealed := false } := by
    rw [new, hparse]
    rfl
  have hsize : ¬ (maxPackBytes.toNat : Int) < Capture.headerSize + Capture.trailerSize + 2 := by
    have := hlimits.1
    show ¬ (maxPackBytes.toNat : Int) < 64 + 64 + 2
    omega
  have hrange : 1 ≤ (maxRecords.toNat : Int) ∧ (maxRecords.toNat : Int) ≤ maxRecordsLimit := by
    have := hlimits.2
    omega
  have hnonneg : ¬ (createdAtNs.toNat : Int) < 0 := by omega
  rw [hnew, newWriter, hu]
  simp only [PackWriter.init, hnonneg, hsize, hrange, and_self, not_true, if_false,
    Int.toNat_natCast, pack_header, Capture.rsplitOnce_emptyFooter, Except.toOption]
  refine ⟨_, rfl, ?_⟩
  exact {
    sealed_eq := rfl
    packId_eq := rfl
    created_eq := rfl
    maxPackBytes_eq := rfl
    maxRecords_eq := rfl
    buffer_eq := fun _ => (align_header u createdAtNs).symm
    json_eq := rfl
    jsonBytes_eq := rfl
    count_eq := rfl
    ids_sorted := .nil
    ids_eq := fun t => by simp
    pieces_eq := by
      rw [emptyFooter_eq rfl]
      exact Capture.rsplitOnce_emptyFooter _ _
    prefix_ne := cons_ne_nil _ _
    caches := .inl ⟨rfl, rfl⟩ }

theorem newWriter_none (unicode : Char → Char) (packId : String)
    {createdAtNs maxPackBytes maxRecords : UInt64}
    (hlimits : ¬ LimitsAccepted maxPackBytes maxRecords) :
    newWriter unicode packId createdAtNs.toNat maxPackBytes.toNat maxRecords.toNat = none := by
  unfold newWriter
  split
  next => rfl
  next u hu =>
    have hsizes : (Capture.headerSize : Int) + Capture.trailerSize + 2 = 130 := rfl
    unfold PackWriter.init
    rw [hsizes]
    split_ifs with h1 h2 h3
    · rfl
    · rfl
    · exact absurd ⟨by omega, by omega⟩ hlimits
    · rfl

/-- A builder with limits that `PackWriter` refuses. -/
structure Barren (b : PackBuilder) : Prop where
  open_ : b.sealed = false
  count : b.recordCount = 0
  length_ge : 64 ≤ b.buffer.length
  limits : ¬ LimitsAccepted b.maxPackBytes b.maxRecords

theorem withCaches_eq (b : PackBuilder) : ∃ front back,
    b.withCaches = { b with footerPrefixCache := front, footerSuffixCache := back } := by
  unfold PackBuilder.withCaches
  split_ifs
  · split
    · exact ⟨_, _, rfl⟩
    · exact ⟨_, _, rfl⟩
  · exact ⟨_, _, rfl⟩

/-- **Such a builder refuses every call.** -/
theorem Barren.perform (h : Barren b) (op : Op) :
    (b.perform op).1 = .refused ∧ Barren (b.perform op).2 := by
  cases op with
  | sealPack =>
    have hseal : b.seal = (.error .empty, b) := by
      rw [PackBuilder.seal, h.open_, if_neg Bool.false_ne_true, if_pos h.count]
    simp only [PackBuilder.perform, hseal]
    exact ⟨trivial, h⟩
  | appendRecord r =>
    suffices ∃ st b', b.append (r.metadata.map utf8) r.payload = (st, b') ∧ st ≠ .ok ∧ Barren b' by
      obtain ⟨st, b', hb, hst, h'⟩ := this
      rw [perform_refused hb hst]
      exact ⟨rfl, h'⟩
    obtain ⟨front, back, hcaches⟩ := withCaches_eq b
    have h' : Barren b.withCaches := by
      rw [hcaches]
      exact { h with }
    unfold PackBuilder.append
    rw [h.open_, h.count, if_neg Bool.false_ne_true]
    by_cases hcount : b.maxRecords.toNat ≤ 0
    · exact ⟨_, b, if_pos hcount, noConfusion, h⟩
    rw [if_neg hcount]
    by_cases hvalid : validateMetadata (r.metadata.map utf8) ≠ .ok
    · exact ⟨_, b, if_pos hvalid, hvalid, h⟩
    rw [if_neg hvalid]
    simp only
    split_ifs with hdup hsize
    · exact ⟨_, b, rfl, noConfusion, h⟩
    · exact ⟨_, _, rfl, noConfusion, h'⟩
    · exfalso
      refine h.limits ⟨?_, by omega⟩
      have hlen := h.length_ge
      have hmax : b.withCaches.maxPackBytes = b.maxPackBytes := by rw [hcaches]
      rw [not_or, hmax] at hsize
      have hpadded : 64 ≤ alignUp (alignUp b.buffer.length + r.payload.length) := by
        unfold alignUp
        omega
      omega

theorem Barren.run (h : Barren b) (ops : List Op) : b.run ops = ops.map fun _ => .refused := by
  induction ops generalizing b with
  | nil => rfl
  | cons op ops ih => rw [run, (h.perform op).1, ih (h.perform op).2, map_cons]

/-- **The native builder conforms to the reference.** -/
theorem native_builder_conforms (unicode : Char → Char) (packId : String)
    (createdAtNs maxPackBytes maxRecords : UInt64) (ops : List Op)
    (hid : (parseUuid (utf8 packId)).isSome) (hmax : maxRecords.toNat ≤ maxRecordsLimit)
    (hsized : ∀ op ∈ ops, op.Sized) :
    (PackBuilder.new (utf8 packId) createdAtNs maxPackBytes maxRecords).run ops =
      referenceOutcomes
        (newWriter unicode packId createdAtNs.toNat maxPackBytes.toNat maxRecords.toNat) ops := by
  by_cases hlimits : LimitsAccepted maxPackBytes maxRecords
  · obtain ⟨w, hw, hsim⟩ := sim_new unicode hid hlimits hmax
    rw [hw, referenceOutcomes, hsim.run hsized]
  · have hnone : newWriter unicode packId createdAtNs.toNat maxPackBytes.toNat maxRecords.toNat =
        none := newWriter_none unicode packId hlimits
    obtain ⟨⟨bytes, id⟩, hparse⟩ := Option.isSome_iff_exists.mp hid
    obtain ⟨u, -, rfl, -⟩ := parseUuid_spec unicode hparse
    have hbarren : Barren (new (utf8 packId) createdAtNs maxPackBytes maxRecords) := by
      rw [new, hparse]
      exact ⟨rfl, rfl, (length_header u createdAtNs).ge, hlimits⟩
    rw [hnone, referenceOutcomes, hbarren.run]

/-! ### Instances -/

/-- A record with one-letter texts and an empty payload, for a tensor of `n` bytes. -/
def emptyPayload (n : Nat) (h : n ≤ 2 ^ 31 - 1) : RawRecord where
  metadata := .ofCapture (Capture.sampleRecord ⟨"c", by decide, by decide⟩
    Capture.sampleTenant n h).metadata
  payload := []
  length_lt := by decide

/-- A pack identifier as `NewPackId` writes it. -/
def samplePackId : String := "12345678-9abc-4def-8123-456789abcdef"

theorem sized_emptyPayload : (Op.appendRecord (emptyPayload 0 (by decide))).Sized := by
  intro md hmd
  have hmetadata := Except.ok.inj (hmd.symm.trans (construct_eq_ok.mpr rfl))
  rw [hmetadata]
  rfl

theorem native_builder_conforms_sample :
    (PackBuilder.new (utf8 samplePackId) 7 4096 10).run
        [.appendRecord (emptyPayload 0 (by decide)), .appendRecord (emptyPayload 0 (by decide)),
          .sealPack] =
      referenceOutcomes (newWriter id samplePackId 7 4096 10)
        [.appendRecord (emptyPayload 0 (by decide)), .appendRecord (emptyPayload 0 (by decide)),
          .sealPack] ∧
    (PackBuilder.new (utf8 samplePackId) 7 4096 10).run
        [.appendRecord (emptyPayload 0 (by decide)), .appendRecord (emptyPayload 0 (by decide))] =
      [.accepted, .refused] := by
  refine ⟨native_builder_conforms id samplePackId 7 4096 10 _ (by decide +kernel) (by decide) ?_,
    ?_⟩
  · simp only [forall_mem_cons]
    exact ⟨sized_emptyPayload, sized_emptyPayload, trivial, fun _ h => absurd h not_mem_nil⟩
  · decide +kernel

/-- **Where the two differ.**  The builder takes a payload that is shorter than dtype and shape
announce; it reads a URN as no UUID, and writes the nil UUID where `PackWriter` writes the
number; it takes any text for a pack identifier, and more than a million records. -/
theorem native_builder_differs :
    ((PackBuilder.new (utf8 samplePackId) 7 4096 10).run
        [.appendRecord (emptyPayload 1 (by decide))] = [.accepted] ∧
      referenceOutcomes (newWriter id samplePackId 7 4096 10)
        [.appendRecord (emptyPayload 1 (by decide))] = [.refused]) ∧
    ((PackBuilder.new (utf8 ("urn:uuid:" ++ samplePackId)) 7 4096 10).uuid = List.replicate 16 0 ∧
      (newWriter id ("urn:uuid:" ++ samplePackId) 7 4096 10).map (fun w => w.uuid.bytes) =
        some [0x12, 0x34, 0x56, 0x78, 0x9A, 0xBC, 0x4D, 0xEF, 0x81, 0x23, 0x45, 0x67, 0x89, 0xAB,
          0xCD, 0xEF]) ∧
    ((PackBuilder.new (utf8 "pack") 7 4096 10).run [.appendRecord (emptyPayload 0 (by decide))] =
        [.accepted] ∧
      referenceOutcomes (newWriter id "pack" 7 4096 10)
        [.appendRecord (emptyPayload 0 (by decide))] = [.refused]) ∧
    (PackBuilder.new (utf8 samplePackId) 7 4096 1000001).run
        [.appendRecord (emptyPayload 0 (by decide))] = [.accepted] ∧
      referenceOutcomes (newWriter id samplePackId 7 4096 1000001)
        [.appendRecord (emptyPayload 0 (by decide))] = [.refused] := by
  decide +kernel

end Dmi.Native
