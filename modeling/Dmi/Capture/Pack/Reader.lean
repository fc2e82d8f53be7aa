import Dmi.Lib.Utf8
import Dmi.Capture.Pack.Writer

/-!
# Reading a pack

`PackReader.fromBytes` checks the header, the trailer, both checksums and the footer
before it believes a record; `parseRecords` walks the record entries with the end of
the previous payload and the capture ids seen so far.  `descriptors` binds the records
to the place the pack was found at, and refuses a key that names another tenant;
`readPayload` cuts a payload out of the pack and checks it against its descriptor.
-/

namespace Dmi.Capture

open Json (Value Str cps lookup)

/-- What reading a pack raises: `PackFormatError` with its text, the `PackFormatError`
that `from_mapping` raises, `PackIntegrityError` with its text or for a foreign tenant,
and the `ValueError` of an integer literal that is too long. -/
inductive PackError where
  | format (message : String)
  | metadata (e : MetadataError)
  | integrity (message : String)
  | foreignTenant (packId objectKey tenant : String)
  | valueError

/-! ### Descriptors -/

/-- `PackRef`. -/
structure PackRef where
  packId : String
  storeId : String
  objectKey : String
  objectBytes : Nat
  checksum : String
  recordCount : Nat
  deriving DecidableEq

/-- `PayloadLocator`. -/
structure PayloadLocator where
  packId : String
  storeId : String
  objectKey : String
  objectBytes : Nat
  packChecksum : String
  packRecordCount : Nat
  offset : Nat
  storedLength : Nat
  decodedLength : Nat
  codec : String
  checksum : String
  deriving DecidableEq

/-- `CaptureDescriptor`. -/
structure CaptureDescriptor where
  metadata : CaptureMetadata
  locator : PayloadLocator
  deriving DecidableEq

def CaptureDescriptor.captureId (d : CaptureDescriptor) : Text := d.metadata.captureId

/-! ### The tenant of an object key -/

/-- Whether `quote` leaves a byte as it is: its always-safe set and `safe="-_.="`. -/
def isUnquoted (b : UInt8) : Bool :=
  let c := Char.ofNat b.toNat
  c.isAlphanum || c ∈ "_.-~=".toList

/-- One byte of `quote(value, safe="-_.=").replace("~", "%7E")`. -/
def quoteByte (b : UInt8) : List Char :=
  if isUnquoted b ∧ b ≠ UInt8.ofNat '~'.toNat then [Char.ofNat b.toNat]
  else '%' :: (hexText [b]).map Char.toUpper

def quoted (value : String) : List Char := (utf8 value).flatMap quoteByte

/-- `_DIGEST_PREFIX`. -/
def digestPrefix : List Char := "sha256-".toList

/-- `key_component`. -/
def keyComponent (value : String) : List Char :=
  let encoded := quoted value
  if encoded.length ≤ 160 ∧ ¬ digestPrefix <+: encoded then encoded
  else digestPrefix ++ (sha256Hex (utf8 value)).toList

/-- `text.split("/")`. -/
def splitSlash : List Char → List (List Char)
  | [] => [[]]
  | c :: r =>
    if c = '/' then [] :: splitSlash r
    else match splitSlash r with
      | [] => [[c]]
      | seg :: segs => (c :: seg) :: segs

/-- `_tenant_segment`. -/
def tenantSegment (objectKey : String) : Option (List Char) :=
  ((splitSlash objectKey.toList).find? fun seg => "tenant=".toList <+: seg).map (·.drop 7)

/-- `_DIGEST_SHAPE.match(tenant) is not None`. -/
def isDigestShape (tenant : List Char) : Bool :=
  digestPrefix <+: tenant ∧ (tenant.drop 7).length = 64 ∧ (tenant.drop 7).all isHexChar

/-- `_segment_belongs_to`. -/
def segmentBelongsTo (segment : List Char) (tenant : String) : Bool :=
  segment = keyComponent tenant ||
    (decide (digestPrefix <+: tenant.toList) && !isDigestShape tenant.toList &&
      segment = quoted tenant)

/-- `reject_a_foreign_tenant`. -/
def rejectAForeignTenant (ref : PackRef) (tenants : List Text) : Except PackError Unit :=
  match tenantSegment ref.objectKey with
  | none => .ok ()
  | some encoded =>
    match tenants.eraseDups.find? fun tenant => !segmentBelongsTo encoded tenant.val with
    | some tenant => .error (.foreignTenant ref.packId ref.objectKey tenant.val)
    | none => .ok ()

/-- The descriptor of a record in the pack `ref`. -/
def describe (ref : PackRef) (item : IndexedRecord) : CaptureDescriptor where
  metadata := item.metadata
  locator := {
    packId := ref.packId
    storeId := ref.storeId
    objectKey := ref.objectKey
    objectBytes := ref.objectBytes
    packChecksum := ref.checksum
    packRecordCount := ref.recordCount
    offset := item.offset
    storedLength := item.storedLength
    decodedLength := item.decodedLength
    codec := item.codec
    checksum := item.checksum }

/-- `_descriptors`. -/
def descriptorsOf (ref : PackRef) (records : List IndexedRecord) :
    Except PackError (List CaptureDescriptor) := do
  rejectAForeignTenant ref (records.map fun item => item.metadata.tenantId)
  return records.map (describe ref)

/-! ### The footer -/

/-- `value.get(name)` compared with a string. -/
def isText (value : Option Value) (text : String) : Bool :=
  match value with
  | some (.str s) => s = cps text
  | _ => false

/-- `value.get(name)` compared with a non-negative integer. -/
def isNat (value : Option Value) (n : Nat) : Bool := value.any fun v => Json.eqNat v n

/-- `_decode_footer`. -/
def decodeFooter (footer : Bytes) (major minor : Nat) : Except PackError (List (Str × Value)) :=
  match Json.loads footer with
  | .error .digits => .error .valueError
  | .error _ => .error (.format "pack footer is not valid JSON")
  | .ok (.obj decoded) =>
    if ¬ isText (lookup (cps "format") decoded) "dmi-pack" then
      .error (.format "pack footer has an invalid format marker")
    else if ¬ isNat (lookup (cps "major_version") decoded) major ∨
        ¬ isNat (lookup (cps "minor_version") decoded) minor then
      .error (.format "pack footer version does not match the trailer")
    else .ok decoded
  | .ok _ => .error (.format "pack footer has an invalid format marker")

/-- `raw[name]`, with the `KeyError` as its `PackFormatError`. -/
def recordEntry (raw : List (Str × Value)) (name : String) : Except PackError Value :=
  match lookup (cps name) raw with
  | some v => .ok v
  | none => .error (.format ("pack record is missing " ++ name))

/-- An `int` that is no `bool`. -/
def recordInt : Value → Except PackError Int
  | .int n => .ok n
  | _ => .error (.format "pack record offsets and lengths must be integers")

/-- `_CRC_PATTERN.fullmatch(checksum)`, on a string. -/
def checksumText : Value → Except PackError String
  | .str s =>
    match Json.toString? s with
    | some t =>
      if t.toList.length = 8 ∧ t.toList.all isHexChar then .ok t
      else .error (.format "pack record checksum is invalid")
    | none => .error (.format "pack record checksum is invalid")
  | _ => .error (.format "pack record checksum is invalid")

/-- `PackReader._parse_record`. -/
def parseRecord (raw : Value) (footerOffset : Nat) : Except PackError IndexedRecord :=
  match raw with
  | .obj raw => do
    let metadataRaw ← recordEntry raw "metadata"
    let offset ← recordEntry raw "offset"
    let storedLength ← recordEntry raw "stored_length"
    let decodedLength ← recordEntry raw "decoded_length"
    let codec ← recordEntry raw "codec"
    let checksum ← recordEntry raw "checksum"
    match metadataRaw with
    | .obj metadataRaw =>
      let offset ← recordInt offset
      let storedLength ← recordInt storedLength
      let decodedLength ← recordInt decodedLength
      if offset < headerSize ∨ storedLength < 0 ∨ decodedLength < 0 then
        .error (.format "pack record range is invalid")
      else if footerOffset < offset + storedLength then
        .error (.format "pack record extends into the footer")
      else if ¬ isText (some codec) "none" ∨ storedLength ≠ decodedLength then
        .error (.format "dmi-pack-v1 supports only uncompressed records")
      else
        let checksum ← checksumText checksum
        match fromMapping metadataRaw with
        | .error e => .error (.metadata e)
        | .ok metadata =>
          if (metadata.logicalBytes : Int) ≠ decodedLength then
            .error (.format "record length does not match metadata dtype and shape")
          else .ok {
            metadata := metadata
            offset := offset.toNat
            storedLength := storedLength.toNat
            decodedLength := decodedLength.toNat
            codec := "none"
            checksum := checksum }
    | _ => .error (.format "pack record metadata must be an object")
  | _ => .error (.format "pack record entry must be an object")

/-- The loop of `_parse_records`, with the end of the previous payload and the capture
ids seen. -/
def parseRecordsFrom (footerOffset : Nat) : Nat → List Text → List Value →
    Except PackError (List IndexedRecord)
  | _, _, [] => .ok []
  | previousEnd, seen, raw :: rest => do
    let record ← parseRecord raw footerOffset
    if record.metadata.captureId ∈ seen then
      .error (.format ("duplicate capture ID: " ++ record.metadata.captureId.val))
    else if record.offset < previousEnd then
      .error (.format "pack record ranges overlap or are out of order")
    else do
      let records ← parseRecordsFrom footerOffset (record.offset + record.storedLength)
        (seen ++ [record.metadata.captureId]) rest
      .ok (record :: records)

/-- `_parse_records`. -/
def parseRecords (decoded : List (Str × Value)) (footerOffset : Nat) :
    Except PackError (List IndexedRecord) :=
  match lookup (cps "records") decoded with
  | some (.arr rawRecords) =>
    if maxRecordsLimit < rawRecords.length then
      .error (.format "pack footer has an invalid record list")
    else parseRecordsFrom footerOffset headerSize [] rawRecords
  | _ => .error (.format "pack footer has an invalid record list")

/-! ### The reader -/

/-- The state of a `PackReader`. -/
structure PackReader where
  data : Bytes
  packId : String
  createdAtNs : Nat
  records : List IndexedRecord
  objectChecksum : String

/-- `_by_capture_id.get(capture_id)`; a later record with the same id would win. -/
def PackReader.byCaptureId (r : PackReader) (captureId : Text) : Option IndexedRecord :=
  r.records.reverse.find? fun item => item.metadata.captureId = captureId

/-- The checks of `from_bytes` behind the two fixed parts, on their unpacked cells. -/
def PackReader.ofParts (data : Bytes) (header trailer : List Struct.Cell) :
    Except PackError PackReader :=
  match header, trailer with
  | [.raw magic, .uint major, .uint minor, .uint size, .raw packBytes, .uint createdAtNs,
      .uint flags, .raw reserved],
    [.raw trailerMagic', .uint trailerMajor, .uint trailerMinor, .uint footerOffset,
      .uint footerLength, .uint footerCrc, .raw bodyHash] =>
    let trailerOffset := data.length - trailerSize
    if magic ≠ headerMagic then .error (.format "invalid pack magic")
    else if major ≠ packMajorVersion then
      .error (.format ("unsupported pack major version: " ++ toString major))
    else if packMinorVersion < minor then
      .error (.format ("unsupported pack minor version: " ++ toString minor))
    else if size ≠ headerSize ∨ flags ≠ 0 ∨ reserved ≠ List.replicate 20 0 then
      .error (.format "invalid pack header fields")
    else if trailerMagic' ≠ trailerMagic then
      .error (.format "pack is truncated or has an invalid trailer")
    else if (trailerMajor, trailerMinor) ≠ (major, minor) then
      .error (.format "pack header and trailer versions differ")
    else if maxFooterBytes < footerLength then
      .error (.format "pack footer exceeds its size limit")
    else if footerOffset < headerSize ∨ footerOffset + footerLength ≠ trailerOffset then
      .error (.format "pack footer range is invalid")
    else if sha256 (slice data 0 trailerOffset) ≠ bodyHash then
      .error (.integrity "pack checksum mismatch")
    else
      let footer := slice data footerOffset trailerOffset
      if (crc32 footer).toNat ≠ footerCrc then .error (.integrity "footer checksum mismatch")
      else do
        let decoded ← decodeFooter footer major minor
        let packId := uuidText packBytes
        if ¬ isText (lookup (cps "pack_id") decoded) packId ∨
            ¬ isNat (lookup (cps "created_at_ns") decoded) createdAtNs then
          .error (.format "pack footer identity does not match the header")
        else do
          let records ← parseRecords decoded footerOffset
          .ok {
            data := data
            packId := packId
            createdAtNs := createdAtNs
            records := records
            objectChecksum := sha256Hex data }
  | _, _ => .error (.format "pack header is truncated")

/-- `PackReader.from_bytes`. -/
def PackReader.fromBytes (data : Bytes) : Except PackError PackReader :=
  if data.length < headerSize + trailerSize + 2 then .error (.format "pack is truncated")
  else
    match Struct.unpackFrom headerFormat data,
      Struct.unpackFrom trailerFormat (data.drop (data.length - trailerSize)) with
    | some header, some trailer => PackReader.ofParts data header trailer
    | none, _ => .error (.format "pack header is truncated")
    | _, none => .error (.format "pack trailer is truncated")

/-- `PackReader.descriptors`. -/
def PackReader.descriptors (r : PackReader) (storeId objectKey : String) :
    Except PackError (List CaptureDescriptor) :=
  descriptorsOf {
    packId := r.packId
    storeId := storeId
    objectKey := objectKey
    objectBytes := r.data.length
    checksum := r.objectChecksum
    recordCount := r.records.length } r.records

/-- `verify_payload`. -/
def verifyPayload (d : CaptureDescriptor) (payload : Bytes) : Except PackError Unit :=
  if payload.length ≠ d.locator.storedLength then
    .error (.integrity ("short record for " ++ d.captureId.val ++ ": "
      ++ toString payload.length ++ " != " ++ toString d.locator.storedLength))
  else if d.locator.codec ≠ "none" then
    .error (.format ("unsupported codec: " ++ d.locator.codec))
  else if d.locator.storedLength ≠ d.locator.decodedLength then
    .error (.format "none codec requires equal stored and decoded lengths")
  else if crc32Hex payload ≠ d.locator.checksum then
    .error (.integrity ("record checksum mismatch: " ++ d.captureId.val))
  else .ok ()

/-- `PackReader.read_payload`. -/
def PackReader.readPayload (r : PackReader) (d : CaptureDescriptor) : Except PackError Bytes :=
  if d.locator.packId ≠ r.packId then .error (.format "descriptor belongs to another pack")
  else
    match r.byCaptureId d.captureId with
    | none => .error (.format "descriptor is not present in this pack")
    | some indexed =>
      if d.metadata ≠ indexed.metadata then
        .error (.format "descriptor does not match the pack footer")
      else if (d.locator.offset, d.locator.storedLength, d.locator.decodedLength, d.locator.codec,
            d.locator.checksum) ≠
          (indexed.offset, indexed.storedLength, indexed.decodedLength, indexed.codec,
            indexed.checksum) then
        .error (.format "descriptor does not match the pack footer")
      else do
        let payload := slice r.data indexed.offset (indexed.offset + indexed.storedLength)
        verifyPayload d payload
        return payload

end Dmi.Capture
