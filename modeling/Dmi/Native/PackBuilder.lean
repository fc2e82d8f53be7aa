import Dmi.Lib.Crc
import Dmi.Lib.Sorted
import Dmi.Lib.Utf8
import Dmi.Capture.Pack.Writer

/-!
# The native pack builder

`PackBuilder` is the second writer of the pack format, on `std::string` bytes and 64-bit
integers.  It escapes JSON text from UTF-8 (`encodeJsonString`), writes the keys of a record
entry in their sorted order by hand (`encodeRecordRow`), checks the metadata itself
(`validateMetadata`), keeps the capture ids in a sorted vector, and pads behind a payload where
the reference pads in front of the next one.  The constructor does not look at the result of
`parseUuid` and has no limits of its own.
-/

namespace Dmi.Native

open Capture (packMajorVersion packMinorVersion maxFooterBytes headerMagic trailerMagic rsplitOnce
  joinBytes)

/-- The bytes of an ASCII literal. -/
def lit (s : String) : Bytes := s.toList.map fun c => UInt8.ofNat c.toNat

/-! ### Checksums -/

/-- `Crc32`, which goes on from the value of an earlier call. -/
def nativeCrc32 (crc : UInt32) (data : Bytes) : UInt32 :=
  crc32Loop (data.length / 16) (crc ^^^ 0xFFFFFFFF) data ^^^ 0xFFFFFFFF

/-- `zlib.crc32` with a start value, bit by bit. -/
def bitwiseCrc32 (crc : UInt32) (data : Bytes) : UInt32 :=
  data.foldl crc32Byte (crc ^^^ 0xFFFFFFFF) ^^^ 0xFFFFFFFF

/-- **The tables compute the bitwise CRC-32**, however the bytes are split into calls. -/
theorem foldl_nativeCrc32 (crc : UInt32) (calls : List Bytes) :
    calls.foldl nativeCrc32 crc = bitwiseCrc32 crc calls.flatten := by
  have hinv : ∀ c : UInt32, c ^^^ 0xFFFFFFFF ^^^ 0xFFFFFFFF = c := by
    intro c
    rw [UInt32.xor_assoc, UInt32.xor_self, UInt32.xor_zero]
  induction calls generalizing crc with
  | nil => exact (hinv crc).symm
  | cons data calls ih =>
    rw [List.foldl_cons, ih, nativeCrc32, crc32Loop_eq (by omega), bitwiseCrc32, hinv,
      List.flatten_cons, bitwiseCrc32, List.foldl_append]

/-! ### JSON text -/

/-- `snprintf("%04x")` of a number below 65536. -/
def hex4 (n : Nat) : Bytes := Json.asciiBytes (Json.hex4 n)

/-- The escape of an ASCII byte. -/
def escapeAscii (c : UInt8) : Bytes :=
  if c = 0x22 then lit "\\\""
  else if c = 0x5C then lit "\\\\"
  else if c = 0x08 then lit "\\b"
  else if c = 0x0C then lit "\\f"
  else if c = 0x0A then lit "\\n"
  else if c = 0x0D then lit "\\r"
  else if c = 0x09 then lit "\\t"
  else if c < 0x20 ∨ c = 0x7F then lit "\\u" ++ hex4 c.toNat
  else [c]

/-- The escape of a code point that was decoded from more than one byte. -/
def escapeCodePoint (cp : Nat) : Bytes :=
  if cp ≤ 0xFFFF then lit "\\u" ++ hex4 cp
  else
    let v := cp - 0x10000
    lit "\\u" ++ hex4 (0xD800 + v / 1024) ++ (lit "\\u" ++ hex4 (0xDC00 + v % 1024))

/-- The bits of a byte under a mask. -/
def bits (b mask : UInt8) : Nat := (b &&& mask).toNat

/-- The loop of `EncodeJsonString`. -/
def escapeBytes : Bytes → Bytes
  | [] => []
  | c :: rest =>
    if c < 0x80 then escapeAscii c ++ escapeBytes rest
    else if c &&& 0xE0 = 0xC0 then
      match rest with
      | b1 :: rest' => escapeCodePoint (bits c 0x1F <<< 6 ||| bits b1 0x3F) ++ escapeBytes rest'
      | [] => lit "\\ufffd"
    else if c &&& 0xF0 = 0xE0 then
      match rest with
      | b1 :: b2 :: rest' =>
        escapeCodePoint (bits c 0x0F <<< 12 ||| bits b1 0x3F <<< 6 ||| bits b2 0x3F) ++
          escapeBytes rest'
      | rest => lit "\\ufffd" ++ escapeBytes rest
    else if c &&& 0xF8 = 0xF0 then
      match rest with
      | b1 :: b2 :: b3 :: rest' =>
        escapeCodePoint (bits c 0x07 <<< 18 ||| bits b1 0x3F <<< 12 ||| bits b2 0x3F <<< 6 |||
          bits b3 0x3F) ++ escapeBytes rest'
      | rest => lit "\\ufffd" ++ escapeBytes rest
    else lit "\\ufffd" ++ escapeBytes rest

/-- `EncodeJsonString`. -/
def encodeJsonString (value : Bytes) : Bytes := lit "\"" ++ (escapeBytes value ++ lit "\"")

/-! ### Records -/

/-- `RecordMetadata`, with texts of the type `T`: the builder gets them as bytes. -/
structure RecordMetadata (T : Type) where
  captureId : T
  tenantId : T
  experimentId : T
  runId : T
  sessionId : T
  requestId : T
  sequenceId : T
  modelId : T
  modelRevision : T
  adapterRevision : Option T
  capturePolicyVersion : T
  hookName : T
  layerNumber : Int64
  producerRank : UInt64
  stepNumber : UInt64
  tokenStart : UInt64
  tokenEnd : UInt64
  batchPosition : UInt64
  dtype : T
  shape : List UInt32
  capturedAtNs : UInt64
  deriving DecidableEq

def RecordMetadata.map {S T : Type} (f : S → T) (m : RecordMetadata S) : RecordMetadata T where
  captureId := f m.captureId
  tenantId := f m.tenantId
  experimentId := f m.experimentId
  runId := f m.runId
  sessionId := f m.sessionId
  requestId := f m.requestId
  sequenceId := f m.sequenceId
  modelId := f m.modelId
  modelRevision := f m.modelRevision
  adapterRevision := m.adapterRevision.map f
  capturePolicyVersion := f m.capturePolicyVersion
  hookName := f m.hookName
  layerNumber := m.layerNumber
  producerRank := m.producerRank
  stepNumber := m.stepNumber
  tokenStart := m.tokenStart
  tokenEnd := m.tokenEnd
  batchPosition := m.batchPosition
  dtype := f m.dtype
  shape := m.shape
  capturedAtNs := m.capturedAtNs

/-- `snprintf("%llu")`. -/
def uintValue (n : Nat) : Bytes := Json.asciiBytes (Json.decimal n)

/-- `snprintf("%lld")`. -/
def intValue (n : Int) : Bytes := Json.asciiBytes (Json.renderInt n)

/-- A key with its colon. -/
def key (name : String) : Bytes := encodeJsonString (lit name) ++ lit ":"

/-- The members of a JSON object, separated by commas. -/
def members : List (String × Bytes) → Bytes
  | [] => []
  | [(name, value)] => key name ++ value
  | (name, value) :: rest => key name ++ value ++ lit "," ++ members rest

/-- The loop over `m.shape`. -/
def dims : List UInt32 → Bytes
  | [] => []
  | [d] => uintValue d.toNat
  | d :: rest => uintValue d.toNat ++ lit "," ++ dims rest

def metadataRow (m : RecordMetadata Bytes) : Bytes :=
  lit "\x7b" ++ members [
    ("adapter_revision", m.adapterRevision.elim (lit "null") encodeJsonString),
    ("batch_position", uintValue m.batchPosition.toNat),
    ("capture_id", encodeJsonString m.captureId),
    ("capture_policy_version", encodeJsonString m.capturePolicyVersion),
    ("captured_at_ns", uintValue m.capturedAtNs.toNat),
    ("dtype", encodeJsonString m.dtype),
    ("experiment_id", encodeJsonString m.experimentId),
    ("hook_name", encodeJsonString m.hookName),
    ("layer_number", intValue m.layerNumber.toInt),
    ("model_id", encodeJsonString m.modelId),
    ("model_revision", encodeJsonString m.modelRevision),
    ("producer_rank", uintValue m.producerRank.toNat),
    ("request_id", encodeJsonString m.requestId),
    ("run_id", encodeJsonString m.runId),
    ("sequence_id", encodeJsonString m.sequenceId),
    ("session_id", encodeJsonString m.sessionId),
    ("shape", lit "[" ++ dims m.shape ++ lit "]"),
    ("step_number", uintValue m.stepNumber.toNat),
    ("tenant_id", encodeJsonString m.tenantId),
    ("token_end", uintValue m.tokenEnd.toNat),
    ("token_start", uintValue m.tokenStart.toNat)] ++ lit "\x7d"

/-- `EncodeRecordRow`. -/
def encodeRecordRow (m : RecordMetadata Bytes) (offset storedLength decodedLength : Nat)
    (codec : String) (checksum : Bytes) : Bytes :=
  lit "\x7b" ++ members [
    ("checksum", encodeJsonString checksum),
    ("codec", encodeJsonString (lit codec)),
    ("decoded_length", uintValue decodedLength),
    ("metadata", metadataRow m),
    ("offset", uintValue offset),
    ("stored_length", uintValue storedLength)] ++ lit "\x7d"

/-! ### Validation -/

inductive Status where
  | ok | sealedState | recordLimit | duplicateId | capacity | empty | badArgument
  deriving DecidableEq, Repr

def dtypes : List String := [
  "bool", "uint8", "int8", "uint16", "int16", "float16", "bfloat16", "float8_e4m3fn",
  "float8_e5m2", "uint32", "int32", "float32", "int64", "float64"]

/-- `DtypeSupported`. -/
def dtypeSupported (dtype : Bytes) : Bool := dtypes.any fun name => dtype = lit name

def isContinuation (b : UInt8) : Bool := b &&& 0xC0 = 0x80

/-- The loop of `ValidText`: leading bytes with their continuation bytes. -/
def validUtf8 : Bytes → Bool
  | [] => true
  | c :: rest =>
    if c < 0x80 then validUtf8 rest
    else if c &&& 0xE0 = 0xC0 then
      match rest with
      | b1 :: rest' => isContinuation b1 && validUtf8 rest'
      | _ => false
    else if c &&& 0xF0 = 0xE0 then
      match rest with
      | b1 :: b2 :: rest' => isContinuation b1 && isContinuation b2 && validUtf8 rest'
      | _ => false
    else if c &&& 0xF8 = 0xF0 then
      match rest with
      | b1 :: b2 :: b3 :: rest' =>
        isContinuation b1 && isContinuation b2 && isContinuation b3 && validUtf8 rest'
      | _ => false
    else false

/-- `ValidText`. -/
def validText (value : Bytes) (optional : Bool) : Bool :=
  if value.isEmpty then optional
  else if 512 < value.length then false
  else validUtf8 value

/-- `ValidateMetadata`. -/
def validateMetadata (m : RecordMetadata Bytes) : Status :=
  if !validText m.captureId false || !validText m.tenantId false ||
      !validText m.experimentId false || !validText m.runId false ||
      !validText m.sessionId false || !validText m.requestId false ||
      !validText m.sequenceId false || !validText m.modelId false ||
      !validText m.modelRevision false || !validText m.capturePolicyVersion false ||
      !validText m.hookName false ||
      !validText (m.adapterRevision.getD []) m.adapterRevision.isNone then .badArgument
  else if !dtypeSupported m.dtype then .badArgument
  else if 32 < m.shape.length then .badArgument
  else if m.shape.any (0x7FFFFFFF < ·) then .badArgument
  else if 0xFFFFFFFF < m.producerRank ∨ 0xFFFFFFFF < m.batchPosition then .badArgument
  else if m.layerNumber < -1 ∨ 0x7FFFFFFF < m.layerNumber then .badArgument
  else if m.tokenEnd < m.tokenStart then .badArgument
  else .ok

/-! ### UUIDs -/

/-- The value of a hexadecimal digit. -/
def nibble? (c : UInt8) : Option Nat :=
  if 0x30 ≤ c ∧ c ≤ 0x39 then some (c.toNat - 0x30)
  else if 0x61 ≤ c ∧ c ≤ 0x66 then some (c.toNat - 0x61 + 10)
  else if 0x41 ≤ c ∧ c ≤ 0x46 then some (c.toNat - 0x41 + 10)
  else none

/-- The bytes of pairs of digits. -/
def nibblePairs : List Nat → Bytes
  | hi :: lo :: rest => UInt8.ofNat (hi * 16 + lo) :: nibblePairs rest
  | _ => []

/-- The canonical layout of 32 digits, as `str(UUID)` writes it. -/
def canonical (hex : List Char) : Bytes :=
  (hex.take 8 ++ '-' :: ((hex.drop 8).take 4 ++ '-' :: ((hex.drop 12).take 4 ++
    '-' :: ((hex.drop 16).take 4 ++ '-' :: hex.drop 20)))).map fun c => UInt8.ofNat c.toNat

/-- The text without the brace at either end. -/
def uuidBody (text : Bytes) : Bytes :=
  let body := if text.head? = some 0x7B then text.drop 1 else text
  if body.getLast? = some 0x7D then body.dropLast else body

/-- `ParseUuid`: the sixteen bytes and the canonical text. -/
def parseUuid (text : Bytes) : Option (Bytes × Bytes) :=
  let body := uuidBody text
  match (body.filter (· ≠ 0x2D)).mapM nibble? with
  | none => none
  | some digits =>
    if digits.length ≠ 32 then none
    else
      let hyphens := body.count 0x2D
      if hyphens ≠ 0 ∧ hyphens ≠ 4 then none
      else some (nibblePairs digits, canonical (digits.map hexChar))

/-! ### The builder -/

structure SealedPack where
  packId : Bytes
  createdAtNs : UInt64
  data : Bytes
  recordCount : Nat
  footerOffset : Nat
  checksum : Bytes
  deriving DecidableEq

structure PackBuilder where
  packId : Bytes
  uuid : Bytes
  createdAtNs : UInt64
  maxPackBytes : UInt64
  maxRecords : UInt64
  buffer : Bytes
  recordJson : List Bytes
  recordJsonBytes : Nat
  recordCount : Nat
  captureIds : List Bytes
  footerPrefixCache : Bytes
  footerSuffixCache : Bytes
  sealed : Bool
  deriving DecidableEq

/-- `AlignUp`. -/
def alignUp (n : Nat) : Nat := (n + 63) / 64 * 64

/-- The header, field by field at its offsets 0, 8, 10, 12, 16, 32, 40 and 44. -/
def header (uuid : Bytes) (createdAtNs : UInt64) : Bytes :=
  headerMagic ++ Struct.leBytes 2 packMajorVersion ++ Struct.leBytes 2 packMinorVersion ++
    Struct.leBytes 4 64 ++ uuid ++ Struct.leBytes 8 createdAtNs.toNat ++ Struct.leBytes 4 0 ++
    List.replicate 20 0

/-- The constructor.  When `ParseUuid` fails, `uuid_` stays zero and `pack_id_` empty. -/
def PackBuilder.new (packId : Bytes) (createdAtNs maxPackBytes maxRecords : UInt64) : PackBuilder :=
  let (uuid, packId) := (parseUuid packId).getD (List.replicate 16 0, [])
  { packId := packId
    uuid := uuid
    createdAtNs := createdAtNs
    maxPackBytes := maxPackBytes
    maxRecords := maxRecords
    buffer := header uuid createdAtNs
    recordJson := []
    recordJsonBytes := 0
    recordCount := 0
    captureIds := []
    footerPrefixCache := []
    footerSuffixCache := []
    sealed := false }

/-- The checksum text of a payload: eight digits, most significant first. -/
def checksumText (payload : Bytes) : Bytes :=
  lit (String.ofList (hexText (Struct.leBytes 4 (crc32Sliced payload).toNat).reverse))

/-- The footer of an empty pack. -/
def PackBuilder.emptyFooter (b : PackBuilder) : Bytes :=
  lit "\x7b\"created_at_ns\":" ++ uintValue b.createdAtNs.toNat ++
    lit ",\"format\":\"dmi-pack\",\"major_version\":" ++ uintValue packMajorVersion ++
    lit ",\"minor_version\":" ++ uintValue packMinorVersion ++ lit ",\"pack_id\":" ++
    encodeJsonString b.packId ++ lit ",\"records\":[]\x7d"

/-- The caches, filled on first use. -/
def PackBuilder.withCaches (b : PackBuilder) : PackBuilder :=
  if b.footerPrefixCache.isEmpty then
    match rsplitOnce (lit "[]") b.emptyFooter with
    | some (front, back) => { b with footerPrefixCache := front, footerSuffixCache := back }
    | none =>
      { b with footerPrefixCache := b.emptyFooter, footerSuffixCache := b.emptyFooter.drop 1 }
  else b

/-- `PackBuilder::Append`. -/
def PackBuilder.append (b : PackBuilder) (m : RecordMetadata Bytes) (payload : Bytes) :
    Status × PackBuilder :=
  if b.sealed then (.sealedState, b)
  else if b.maxRecords.toNat ≤ b.recordCount then (.recordLimit, b)
  else if validateMetadata m ≠ .ok then (validateMetadata m, b)
  else
    let (below, above) := lowerBound b.captureIds m.captureId
    if above.head? = some m.captureId then (.duplicateId, b)
    else
      let offset := alignUp b.buffer.length
      let padded := alignUp (offset + payload.length)
      let row := encodeRecordRow m offset payload.length payload.length "none"
        (checksumText payload)
      let b := b.withCaches
      let footerLength := b.footerPrefixCache.length + 2 + b.recordJsonBytes + row.length +
        b.recordJson.length + b.footerSuffixCache.length
      let projected := padded + footerLength + 64
      if maxFooterBytes < footerLength ∨ b.maxPackBytes.toNat < projected then (.capacity, b)
      else
        let buffer := b.buffer ++ List.replicate (offset - b.buffer.length) 0 ++ payload
        (.ok, { b with
          buffer := buffer ++ List.replicate (padded - buffer.length) 0
          captureIds := below ++ m.captureId :: above
          recordJson := b.recordJson ++ [row]
          recordJsonBytes := b.recordJsonBytes + row.length
          recordCount := b.recordCount + 1 })

/-- The footer that `Seal` puts together. -/
def PackBuilder.footer (b : PackBuilder) : Bytes :=
  b.footerPrefixCache ++ lit "[" ++ joinBytes b.recordJson ++ lit "]" ++ b.footerSuffixCache

/-- The trailer, field by field at its offsets 0, 8, 10, 12, 20, 28 and 32. -/
def trailer (footerOffset : Nat) (footer body : Bytes) : Bytes :=
  trailerMagic ++ Struct.leBytes 2 packMajorVersion ++ Struct.leBytes 2 packMinorVersion ++
    Struct.leBytes 8 footerOffset ++ Struct.leBytes 8 footer.length ++
    Struct.leBytes 4 (crc32Sliced footer).toNat ++ sha256 body

/-- `PackBuilder::Seal`. -/
def PackBuilder.seal (b : PackBuilder) : Except Status SealedPack × PackBuilder :=
  if b.sealed then (.error .sealedState, b)
  else if b.recordCount = 0 then (.error .empty, b)
  else
    let footer := b.footer
    let footerOffset := alignUp b.buffer.length
    if maxFooterBytes < footer.length then (.error .capacity, b)
    else if b.maxPackBytes.toNat < footerOffset + footer.length + 64 then (.error .capacity, b)
    else
      let body := b.buffer ++ List.replicate (footerOffset - b.buffer.length) 0 ++ footer
      let data := body ++ trailer footerOffset footer body
      (.ok {
          packId := b.packId
          createdAtNs := b.createdAtNs
          data := data
          recordCount := b.recordCount
          footerOffset := footerOffset
          checksum := lit (sha256Hex data) },
        { b with buffer := [], sealed := true })

end Dmi.Native
