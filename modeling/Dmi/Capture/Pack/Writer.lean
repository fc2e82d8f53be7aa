import Dmi.Lib.Digest
import Dmi.Capture.Metadata

/-!
# Writing a pack

A pack is a header, the payloads at aligned offsets, a JSON footer that describes
them, and a trailer:

    header (64) | payload | pad | payload | ... | pad | footer | trailer (64)

`PackWriter` keeps the buffer and, beside it, the footer in pieces: the encoded record
entries, and the text before and after them, cut out of the footer of an empty pack.
`append` refuses a record without changing the writer.  `seal` decides its limits
before it moves a byte; only packing the trailer can fail after that.
-/

namespace Dmi.Capture

open Json (Value Str cps)

/-! ### Format -/

def packMajorVersion : Nat := 1

def packMinorVersion : Nat := 0

def packAlignment : Nat := 64

def maxFooterBytes : Nat := 64 * 1024 * 1024

/-- `MAX_RECORDS`. -/
def maxRecordsLimit : Nat := 1000000

def headerMagic : Bytes := "DMIPACK".toList.map (fun c => UInt8.ofNat c.toNat) ++ [0]

def trailerMagic : Bytes := "DMIFTR".toList.map (fun c => UInt8.ofNat c.toNat) ++ [0, 0]

/-- `<8sHHI16sQI20s`. -/
def headerFormat : List Struct.Field :=
  [.raw 8, .uint 2, .uint 2, .uint 4, .raw 16, .uint 8, .uint 4, .raw 20]

/-- `<8sHHQQI32s`. -/
def trailerFormat : List Struct.Field :=
  [.raw 8, .uint 2, .uint 2, .uint 8, .uint 8, .uint 4, .raw 32]

def headerSize : Nat := Struct.size headerFormat

def trailerSize : Nat := Struct.size trailerFormat

/-- A UUID, as its sixteen bytes. -/
structure Uuid where
  bytes : Bytes
  length_eq : bytes.length = 16
  deriving DecidableEq

/-- `str(UUID(bytes=b))`. -/
def uuidText (b : Bytes) : String :=
  let h := hexText b
  String.ofList (h.take 8 ++ '-' :: ((h.drop 8).take 4 ++ '-' :: ((h.drop 12).take 4 ++
    '-' :: ((h.drop 16).take 4 ++ '-' :: h.drop 20))))

/-- `_IndexedRecord`. -/
structure IndexedRecord where
  metadata : CaptureMetadata
  offset : Nat
  storedLength : Nat
  decodedLength : Nat
  codec : String
  checksum : String
  deriving DecidableEq

/-- `SealedPack`. -/
structure SealedPack where
  packId : String
  createdAtNs : Nat
  data : Bytes
  recordCount : Nat
  footerOffset : Nat
  checksum : String
  deriving DecidableEq

/-- `_aligned_length`. -/
def alignedLength (length : Nat) : Nat :=
  length + (packAlignment - length % packAlignment) % packAlignment

/-- `_align`. -/
def align (buffer : Bytes) : Bytes :=
  buffer ++ List.replicate ((packAlignment - buffer.length % packAlignment) % packAlignment) 0

/-- `_encode_json`. -/
def encodeJson (value : Value) : Bytes := Json.asciiBytes (Json.dumps value)

/-- `_record_mapping`. -/
def recordMapping (item : IndexedRecord) : List (Str × Value) := [
  (cps "metadata", .obj item.metadata.toMapping),
  (cps "offset", .int item.offset),
  (cps "stored_length", .int item.storedLength),
  (cps "decoded_length", .int item.decodedLength),
  (cps "codec", .str (cps item.codec)),
  (cps "checksum", .str (cps item.checksum))]

/-- The footer object. -/
def footerMapping (packId : String) (createdAtNs : Nat) (records : List Value) :
    List (Str × Value) := [
  (cps "format", .str (cps "dmi-pack")),
  (cps "major_version", .int packMajorVersion),
  (cps "minor_version", .int packMinorVersion),
  (cps "pack_id", .str (cps packId)),
  (cps "created_at_ns", .int createdAtNs),
  (cps "records", .arr records)]

/-! ### Byte strings -/

/-- `data.rsplit(sep, 1)`: the parts before and after the last occurrence. -/
def rsplitOnce (sep : Bytes) : Bytes → Option (Bytes × Bytes)
  | [] => none
  | x :: r =>
    match rsplitOnce sep r with
    | some (p, s) => some (x :: p, s)
    | none => if sep <+: x :: r then some ([], (x :: r).drop sep.length) else none

/-- `b",".join(parts)`. -/
def joinBytes : List Bytes → Bytes
  | [] => []
  | [p] => p
  | p :: q :: ps => p ++ UInt8.ofNat ','.toNat :: joinBytes (q :: ps)

/-! ### The writer -/

/-- The state of a `PackWriter`. -/
structure PackWriter where
  uuid : Uuid
  packId : String
  createdAtNs : Nat
  maxPackBytes : Nat
  maxRecords : Nat
  buffer : Bytes
  records : List IndexedRecord
  footerPrefix : Bytes
  footerSuffix : Bytes
  recordJson : List Bytes
  recordJsonBytes : Nat
  captureIds : List Text
  sealed : Bool
  deriving DecidableEq

/-- What `PackWriter.__init__` raises. -/
inductive InitError where
  | createdAtNegative
  | maxPackBytesTooSmall
  | maxRecordsOutOfRange
  | structError
  | footerSplit
  deriving DecidableEq, Repr

/-- The cells of the header. -/
def headerCells (uuid : Uuid) (createdAtNs : Nat) : List Struct.Cell := [
  .raw headerMagic, .uint packMajorVersion, .uint packMinorVersion, .uint headerSize,
  .raw uuid.bytes, .uint createdAtNs, .uint 0, .raw (List.replicate 20 0)]

/-- `PackWriter.__init__`, for a parsed UUID. -/
def PackWriter.init (uuid : Uuid) (createdAtNs : Int) (maxPackBytes maxRecords : Int) :
    Except InitError PackWriter :=
  if createdAtNs < 0 then .error .createdAtNegative
  else if maxPackBytes < headerSize + trailerSize + 2 then .error .maxPackBytesTooSmall
  else if ¬ (1 ≤ maxRecords ∧ maxRecords ≤ maxRecordsLimit) then .error .maxRecordsOutOfRange
  else
    match Struct.pack headerFormat (headerCells uuid createdAtNs.toNat) with
    | none => .error .structError
    | some header =>
      let packId := uuidText uuid.bytes
      let emptyFooter := encodeJson (.obj (footerMapping packId createdAtNs.toNat []))
      match rsplitOnce (Json.asciiBytes (cps "[]")) emptyFooter with
      | none => .error .footerSplit
      | some (footerPrefix, footerSuffix) => .ok {
          uuid := uuid
          packId := packId
          createdAtNs := createdAtNs.toNat
          maxPackBytes := maxPackBytes.toNat
          maxRecords := maxRecords.toNat
          buffer := header
          records := []
          footerPrefix := footerPrefix
          footerSuffix := footerSuffix
          recordJson := []
          recordJsonBytes := 0
          captureIds := []
          sealed := false }

/-- What `PackWriter.append` raises: `_PackStateError`, `PackCapacityError` (the record
limit or the size limits), `DuplicateCaptureError`. -/
inductive AppendError where
  | alreadySealed
  | recordLimit
  | duplicate (captureId : Text)
  | sizeLimit
  deriving DecidableEq

/-- The footer entry of a record that `append` would place next. -/
def PackWriter.indexed (w : PackWriter) (record : CaptureRecord) : IndexedRecord where
  metadata := record.metadata
  offset := alignedLength w.buffer.length
  storedLength := record.payload.length
  decodedLength := record.payload.length
  codec := "none"
  checksum := crc32Hex record.payload

/-- The footer length that `append` projects. -/
def PackWriter.projectedFooter (w : PackWriter) (encodedRecord : Bytes) : Nat :=
  w.footerPrefix.length + 2 + (w.recordJsonBytes + encodedRecord.length) + w.recordJson.length
    + w.footerSuffix.length

/-- `PackWriter.append`. -/
def PackWriter.append (w : PackWriter) (record : CaptureRecord) : Except AppendError PackWriter :=
  if w.sealed then .error .alreadySealed
  else if w.maxRecords ≤ w.records.length then .error .recordLimit
  else if record.metadata.captureId ∈ w.captureIds then
    .error (.duplicate record.metadata.captureId)
  else
    let indexed := w.indexed record
    let encodedRecord := encodeJson (.obj (recordMapping indexed))
    let footerLength := w.projectedFooter encodedRecord
    let projected := alignedLength (indexed.offset + record.payload.length) + footerLength
      + trailerSize
    if maxFooterBytes < footerLength ∨ w.maxPackBytes < projected then .error .sizeLimit
    else .ok { w with
      buffer := align w.buffer ++ record.payload
      records := w.records ++ [indexed]
      recordJson := w.recordJson ++ [encodedRecord]
      recordJsonBytes := w.recordJsonBytes + encodedRecord.length
      captureIds := w.captureIds ++ [record.metadata.captureId] }

/-- What `PackWriter.seal` raises. -/
inductive SealError where
  | alreadySealed
  | empty
  | footerTooLarge
  | packTooLarge
  | structError
  deriving DecidableEq, Repr

/-- The footer `seal` writes. -/
def PackWriter.footer (w : PackWriter) : Bytes :=
  w.footerPrefix ++ (UInt8.ofNat '['.toNat :: (joinBytes w.recordJson ++
    (UInt8.ofNat ']'.toNat :: w.footerSuffix)))

/-- The cells of the trailer behind a `body` that ends with `footer`. -/
def trailerCells (footerOffset : Nat) (footer body : Bytes) : List Struct.Cell := [
  .raw trailerMagic, .uint packMajorVersion, .uint packMinorVersion, .uint footerOffset,
  .uint footer.length, .uint (crc32 footer).toNat, .raw (sha256 body)]

/-- `PackWriter.seal`, with the writer it leaves. -/
def PackWriter.seal (w : PackWriter) : Except SealError SealedPack × PackWriter :=
  if w.sealed then (.error .alreadySealed, w)
  else if w.records = [] then (.error .empty, w)
  else
    let footer := w.footer
    let footerOffset := alignedLength w.buffer.length
    if maxFooterBytes < footer.length then (.error .footerTooLarge, w)
    else if w.maxPackBytes < footerOffset + footer.length + trailerSize then
      (.error .packTooLarge, w)
    else
      let body := align w.buffer ++ footer
      match Struct.pack trailerFormat (trailerCells footerOffset footer body) with
      | none => (.error .structError, { w with buffer := body })
      | some trailer =>
        (.ok {
            packId := w.packId
            createdAtNs := w.createdAtNs
            data := body ++ trailer
            recordCount := w.records.length
            footerOffset := footerOffset
            checksum := sha256Hex (body ++ trailer) },
          { w with buffer := body ++ trailer, sealed := true })

/-- A sequence of `append` calls: the writer at the end, and the records it accepted. -/
def PackWriter.appendAll (w : PackWriter) : List CaptureRecord → PackWriter × List CaptureRecord
  | [] => (w, [])
  | r :: rs =>
    match w.append r with
    | .error _ => w.appendAll rs
    | .ok w' => ((w'.appendAll rs).1, r :: (w'.appendAll rs).2)

/-- A small record with a payload of zeros. -/
def sampleRecord (captureId tenantId : Text) (length : Nat) (h : length ≤ 2 ^ 31 - 1) :
    CaptureRecord where
  metadata := {
    captureId := captureId
    tenantId := tenantId
    experimentId := ⟨"e", by decide, by decide⟩
    runId := ⟨"r", by decide, by decide⟩
    sessionId := ⟨"s", by decide, by decide⟩
    requestId := ⟨"q", by decide, by decide⟩
    sequenceId := ⟨"n", by decide, by decide⟩
    modelId := ⟨"m", by decide, by decide⟩
    modelRevision := ⟨"v", by decide, by decide⟩
    adapterRevision := none
    capturePolicyVersion := ⟨"p", by decide, by decide⟩
    hookName := ⟨"h", by decide, by decide⟩
    layerNumber := ⟨-1, by decide⟩
    producerRank := 0
    stepNumber := 0
    tokenStart := 0
    tokenEnd := 1
    batchPosition := 0
    dtype := .uint8
    shape := ⟨[length], Nat.le_of_ble_eq_true rfl, by simpa using h⟩
    capturedAtNs := 5
    tokens_le := by decide }
  payload := List.replicate length 0
  length_eq := by simp [CaptureMetadata.logicalBytes, DType.bytes]
  length_lt := by rw [List.length_replicate]; omega

def sampleTenant : Text := ⟨"t", by decide, by decide⟩

/-- A record of three bytes. -/
def shortRecord (captureId : Text) : CaptureRecord :=
  sampleRecord captureId sampleTenant 3 (by decide)

end Dmi.Capture
