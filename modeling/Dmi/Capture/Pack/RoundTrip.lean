import Dmi.Capture.Pack.Reader

/-!
# A sealed pack is read back

The writer builds the footer in pieces and the reader validates it as a whole.  The
bridge is `PackWriter.Holds`: after any sequence of `append` calls the writer's buffer
holds the accepted payloads at the offsets its records name, in order and disjoint, and
its footer pieces are those of the JSON text of the footer object.  `append` keeps the
invariant and a refused record changes nothing (`appendAll_holds`).

`fromBytes_seal` follows the reader through the sealed bytes: it returns a reader whose
records are the writer's.  The descriptors then list the accepted records in order, and
each payload is read back byte for byte.
-/

namespace Dmi.Capture

open Json (Value Str cps lookup asciiBytes)
open List hiding lookup
open PackWriter
open Struct
open PackReader

/-! ### The text of the footer -/

/-- The footer's text up to the records. -/
def footerHead (packId : String) (createdAtNs : Nat) : Str :=
  '\x7b'.toNat :: (Json.renderStr (cps "created_at_ns") ++ ':'.toNat :: (Json.decimal createdAtNs ++
    ','.toNat :: (Json.renderStr (cps "format") ++ ':'.toNat :: (Json.renderStr (cps "dmi-pack") ++
    ','.toNat :: (Json.renderStr (cps "major_version") ++ ':'.toNat ::
      (Json.decimal packMajorVersion ++
    ','.toNat :: (Json.renderStr (cps "minor_version") ++ ':'.toNat ::
      (Json.decimal packMinorVersion ++
    ','.toNat :: (Json.renderStr (cps "pack_id") ++ ':'.toNat :: (Json.renderStr (cps packId) ++
    ','.toNat :: (Json.renderStr (cps "records") ++ [':'.toNat])))))))))))

section

variable (packId : String) (createdAtNs : Nat) (records : List Value)

theorem sortMembers_footerMapping :
    Json.sortMembers (footerMapping packId createdAtNs records) = [
      (cps "created_at_ns", .int createdAtNs),
      (cps "format", .str (cps "dmi-pack")),
      (cps "major_version", .int packMajorVersion),
      (cps "minor_version", .int packMinorVersion),
      (cps "pack_id", .str (cps packId)),
      (cps "records", .arr (Json.sortElems records))] := rfl

theorem dumps_footerMapping :
    Json.dumps (.obj (footerMapping packId createdAtNs records)) =
      footerHead packId createdAtNs ++ ('['.toNat :: (Json.joinComma (records.map Json.dumps) ++
        [']'.toNat, '\x7d'.toNat])) := by
  have hrecords : Json.render (.arr (Json.sortElems records)) =
      '['.toNat :: (Json.joinComma (records.map Json.dumps) ++ [']'.toNat]) := by
    rw [Json.render_arr, Json.sortElems_eq_map, map_map]
    rfl
  rw [Json.dumps, Json.sortKeys, sortMembers_footerMapping]
  simp only [Json.render, Json.renderMembers, hrecords, footerHead, append_assoc,
    cons_append, nil_append]
  rfl

end

theorem joinBytes_map_asciiBytes (parts : List Str) :
    joinBytes (parts.map asciiBytes) = asciiBytes (Json.joinComma parts) := by
  induction parts with
  | nil => rfl
  | cons p parts ih =>
    cases parts with
    | nil => rfl
    | cons q parts =>
      rw [map_cons, map_cons, joinBytes, ← map_cons, ih, Json.joinComma,
        Json.asciiBytes_append, Json.asciiBytes_cons]

theorem rsplitOnce_append {sep t p s : Bytes} (h : rsplitOnce sep t = some (p, s)) (q : Bytes) :
    rsplitOnce sep (q ++ t) = some (q ++ p, s) := by
  induction q with
  | nil => exact h
  | cons x q ih => rw [cons_append, rsplitOnce, ih, cons_append]

/-- The pieces the writer cuts out of the footer of an empty pack. -/
theorem rsplitOnce_emptyFooter (packId : String) (createdAtNs : Nat) :
    rsplitOnce (asciiBytes (cps "[]")) (encodeJson (.obj (footerMapping packId createdAtNs []))) =
      some (asciiBytes (footerHead packId createdAtNs), asciiBytes ['\x7d'.toNat]) := by
  have htail : rsplitOnce (asciiBytes (cps "[]")) (asciiBytes ('['.toNat ::
      (Json.joinComma (([] : List Value).map Json.dumps) ++ [']'.toNat, '\x7d'.toNat])))
      = some ([], asciiBytes ['\x7d'.toNat]) := by decide
  rw [encodeJson, dumps_footerMapping, Json.asciiBytes_append, rsplitOnce_append htail,
    append_nil]

/-! ### Alignment -/

theorem length_align (buffer : Bytes) : (align buffer).length = alignedLength buffer.length := by
  rw [align, length_append, length_replicate, alignedLength]

theorem prefix_align (buffer : Bytes) : buffer <+: align buffer := List.prefix_append _ _

theorem le_alignedLength (n : Nat) : n ≤ alignedLength n := Nat.le_add_right _ _

/-! ### The writer's invariant -/

/-- The records stand in order and disjoint between `start` and `stop`. -/
def Placed : Nat → List IndexedRecord → Nat → Prop
  | start, [], stop => start ≤ stop
  | start, item :: items, stop =>
    start ≤ item.offset ∧ Placed (item.offset + item.storedLength) items stop

variable {items : List IndexedRecord} {start : Nat}

theorem Placed.snoc {stop stop' : Nat} {item : IndexedRecord} (h : Placed start items stop)
    (hoff : stop ≤ item.offset)
    (hend : item.offset + item.storedLength ≤ stop') : Placed start (items ++ [item]) stop' := by
  induction items generalizing start with
  | nil => exact ⟨Nat.le_trans h hoff, hend⟩
  | cons i items ih => exact ⟨h.1, ih h.2⟩

theorem Placed.mono {stop stop' : Nat}
    (h : Placed start items stop) (hle : stop ≤ stop') : Placed start items stop' := by
  induction items generalizing start with
  | nil => exact Nat.le_trans h hle
  | cons i items ih => exact ⟨h.1, ih h.2⟩

theorem Placed.le_stop {stop : Nat}
    (h : Placed start items stop) : start ≤ stop ∧
      ∀ item ∈ items, start ≤ item.offset ∧ item.offset + item.storedLength ≤ stop := by
  induction items generalizing start with
  | nil => exact ⟨h, fun _ hmem => absurd hmem not_mem_nil⟩
  | cons i items ih =>
    obtain ⟨hle, hall⟩ := ih h.2
    have hstart := h.1
    refine ⟨by omega, fun item hmem => ?_⟩
    rcases mem_cons.mp hmem with rfl | hmem
    · exact ⟨hstart, hle⟩
    · have := hall item hmem
      omega

/-- The entry `item` describes the record `r`, whose payload stands in `buffer`. -/
structure Describes (buffer : Bytes) (item : IndexedRecord) (r : CaptureRecord) : Prop where
  metadata_eq : item.metadata = r.metadata
  stored_eq : item.storedLength = r.payload.length
  decoded_eq : item.decodedLength = r.payload.length
  codec_eq : item.codec = "none"
  checksum_eq : item.checksum = crc32Hex r.payload
  payload_eq : slice buffer item.offset (item.offset + item.storedLength) = r.payload

/-- The limits `seal` checks: `append` projected exactly these lengths. -/
def PackWriter.Fits (w : PackWriter) : Prop :=
  w.footer.length ≤ maxFooterBytes ∧
    alignedLength w.buffer.length + w.footer.length + trailerSize ≤ w.maxPackBytes

instance (w : PackWriter) : Decidable w.Fits := inferInstanceAs (Decidable (_ ∧ _))

/-- What a writer that accepted the records `accepted` looks like. -/
structure PackWriter.Holds (w : PackWriter) (accepted : List CaptureRecord) : Prop where
  not_sealed : w.sealed = false
  packId_eq : w.packId = uuidText w.uuid.bytes
  header : ∃ header, Struct.pack headerFormat (headerCells w.uuid w.createdAtNs) = some header ∧
    header <+: w.buffer
  prefix_eq : w.footerPrefix = asciiBytes (footerHead w.packId w.createdAtNs)
  suffix_eq : w.footerSuffix = asciiBytes ['\x7d'.toNat]
  json_eq : w.recordJson = w.records.map fun item => encodeJson (.obj (recordMapping item))
  jsonBytes_eq : w.recordJsonBytes = (w.recordJson.map List.length).sum
  describes : List.Forall₂ (Describes w.buffer) w.records accepted
  placed : Placed headerSize w.records w.buffer.length
  ids_eq : w.captureIds = w.records.map fun item => item.metadata.captureId
  ids_nodup : w.captureIds.Nodup
  count_le : w.records.length ≤ w.maxRecords
  limit_le : w.maxRecords ≤ maxRecordsLimit

theorem headerCells_exact (uuid : Uuid) (createdAtNs : Nat) :
    List.Forall₂ Exact headerFormat (headerCells uuid createdAtNs) :=
  .cons rfl (.cons trivial (.cons trivial (.cons trivial (.cons uuid.length_eq
    (.cons trivial (.cons trivial (.cons rfl .nil)))))))

theorem trailerCells_exact (footerOffset : Nat) (footer body : Bytes) :
    List.Forall₂ Exact trailerFormat (trailerCells footerOffset footer body) :=
  .cons rfl (.cons trivial (.cons trivial (.cons trivial (.cons trivial
    (.cons trivial (.cons (length_sha256 body) .nil))))))

variable {w : PackWriter}

theorem PackWriter.init_holds {uuid : Uuid} {createdAtNs maxPackBytes maxRecords : Int}
    (h : init uuid createdAtNs maxPackBytes maxRecords = .ok w) :
    w.Holds [] := by
  unfold init at h
  split_ifs at h with hneg hsmall hrange
  split at h
  · cases h
  · rename_i header hheader
    simp only [rsplitOnce_emptyFooter, Except.ok.injEq] at h
    subst h
    have hlen := length_pack (headerCells_exact _ _) hheader
    exact {
      not_sealed := rfl
      packId_eq := rfl
      header := ⟨header, hheader, prefix_refl header⟩
      prefix_eq := rfl
      suffix_eq := rfl
      json_eq := rfl
      jsonBytes_eq := rfl
      describes := .nil
      placed := Nat.le_of_eq hlen.symm
      ids_eq := rfl
      ids_nodup := nodup_nil
      count_le := Nat.zero_le _
      limit_le := by
        show maxRecords.toNat ≤ maxRecordsLimit
        omega }

variable {r : CaptureRecord}

/-- A slice of the old buffer is the same in a buffer that only grew. -/
theorem Describes.append {buffer : Bytes} {item : IndexedRecord} (h : Describes buffer item r)
    (hend : item.offset + item.storedLength ≤ buffer.length)
    (more : Bytes) : Describes (buffer ++ more) item r :=
  { h with payload_eq := by rw [slice_append_left hend, h.payload_eq] }

theorem describes_append {buffer : Bytes} {rs : List CaptureRecord}
    (h : List.Forall₂ (Describes buffer) items rs) (hplaced : Placed start items buffer.length)
    (more : Bytes) : List.Forall₂ (Describes (buffer ++ more)) items rs := by
  have hend := hplaced.le_stop.2
  rw [forall₂_iff_get] at h ⊢
  refine ⟨h.1, fun i hi hi' => (h.2 i hi hi').append ?_ more⟩
  exact (hend _ (get_mem items ⟨i, hi⟩)).2

theorem length_joinBytes_snoc (parts : List Bytes) (p : Bytes) :
    (joinBytes (parts ++ [p])).length = (parts.map List.length).sum + parts.length + p.length := by
  induction parts with
  | nil => simp [joinBytes]
  | cons q parts ih =>
    cases parts with
    | nil =>
      simp only [cons_append, nil_append, joinBytes, length_append,
        length_cons, map_cons, map_nil, sum_cons, sum_nil, length_nil]
      omega
    | cons q' parts =>
      simp only [cons_append, joinBytes, length_append, length_cons, map_cons,
        sum_cons] at ih ⊢
      omega

variable {w' : PackWriter}

theorem PackWriter.append_ok (h : w.append r = .ok w') :
    w.sealed = false ∧ w.records.length < w.maxRecords ∧
      r.metadata.captureId ∉ w.captureIds ∧
      w.projectedFooter (encodeJson (.obj (recordMapping (w.indexed r)))) ≤ maxFooterBytes ∧
      alignedLength ((w.indexed r).offset + r.payload.length)
        + w.projectedFooter (encodeJson (.obj (recordMapping (w.indexed r)))) + trailerSize
        ≤ w.maxPackBytes ∧
      w' = { w with
        buffer := align w.buffer ++ r.payload
        records := w.records ++ [w.indexed r]
        recordJson := w.recordJson ++ [encodeJson (.obj (recordMapping (w.indexed r)))]
        recordJsonBytes :=
          w.recordJsonBytes + (encodeJson (.obj (recordMapping (w.indexed r)))).length
        captureIds := w.captureIds ++ [r.metadata.captureId] } := by
  unfold append at h
  split_ifs at h with hsealed hcount hdup
  simp only at h
  split_ifs at h with hsize
  cases h
  exact ⟨by simpa using hsealed, by omega, hdup, by omega, by omega, rfl⟩

variable {accepted : List CaptureRecord}

section

variable (hw : w.Holds accepted) (h : w.append r = .ok w')
include hw h

/-- **An accepted record joins the ones the writer holds.** -/
theorem PackWriter.append_holds : w'.Holds (accepted ++ [r]) := by
  obtain ⟨hopen, hcount, hdup, _, _, rfl⟩ := append_ok h
  obtain ⟨header, hheader, hbuffer⟩ := hw.header
  have hoffset : (w.indexed r).offset = (align w.buffer).length := (length_align w.buffer).symm
  have hlen : (align w.buffer ++ r.payload).length
      = (w.indexed r).offset + (w.indexed r).storedLength := by
    rw [length_append, ← hoffset]
    rfl
  have hnew : Describes (align w.buffer ++ r.payload) (w.indexed r) r :=
    { metadata_eq := rfl, stored_eq := rfl, decoded_eq := rfl, codec_eq := rfl, checksum_eq := rfl
      payload_eq := by
        have hmid := slice_append_mid (align w.buffer) r.payload []
        rw [append_nil] at hmid
        rw [hoffset]
        exact hmid }
  have hold : List.Forall₂ (Describes (align w.buffer ++ r.payload)) w.records accepted := by
    rw [align, append_assoc]
    exact describes_append hw.describes hw.placed _
  have hle : w.buffer.length ≤ (w.indexed r).offset := le_alignedLength _
  exact {
    not_sealed := hopen
    packId_eq := hw.packId_eq
    header := ⟨header, hheader,
      hbuffer.trans ((prefix_align w.buffer).trans (prefix_append _ _))⟩
    prefix_eq := hw.prefix_eq
    suffix_eq := hw.suffix_eq
    json_eq := by simp only [hw.json_eq, map_append, map_cons, map_nil]
    jsonBytes_eq := by
      simp only [hw.jsonBytes_eq, map_append, map_cons, map_nil, sum_append,
        sum_cons, sum_nil, Nat.add_zero]
    describes := rel_append hold (.cons hnew .nil)
    placed := hw.placed.snoc hle (Nat.le_of_eq hlen.symm)
    ids_eq := by
      simp only [hw.ids_eq, map_append, map_cons, map_nil]
      rfl
    ids_nodup := by
      rw [nodup_append]
      refine ⟨hw.ids_nodup, nodup_singleton _, fun a ha b hb hab => hdup ?_⟩
      rw [mem_singleton] at hb
      rwa [← hb, ← hab]
    count_le := by
      show (w.records ++ [w.indexed r]).length ≤ w.maxRecords
      rw [length_append, length_singleton]
      omega
    limit_le := hw.limit_le }

theorem PackWriter.length_footer_append : w'.footer.length =
      w.projectedFooter (encodeJson (.obj (recordMapping (w.indexed r)))) := by
  obtain ⟨_, _, _, _, _, rfl⟩ := append_ok h
  simp only [footer, length_append, length_cons, length_joinBytes_snoc]
  rw [projectedFooter, hw.jsonBytes_eq]
  omega

/-- `append` projects the lengths that `seal` will find. -/
theorem PackWriter.append_fits : w'.Fits := by
  have hlength := length_footer_append hw h
  obtain ⟨_, _, _, hfooter, hpack, rfl⟩ := append_ok h
  rw [Fits, hlength, length_append, length_align]
  exact ⟨hfooter, hpack⟩

end

/-- **After any sequence of appends** the writer holds the accepted records. -/
theorem PackWriter.appendAll_holds (hw : w.Holds accepted)
    (rs : List CaptureRecord) : (w.appendAll rs).1.Holds (accepted ++ (w.appendAll rs).2) := by
  induction rs generalizing w accepted with
  | nil => rwa [appendAll, append_nil]
  | cons r rs ih =>
    rw [appendAll]
    cases h : w.append r with
    | error e => exact ih hw
    | ok w' =>
      have hrun := ih (append_holds hw h)
      rwa [append_assoc, singleton_append] at hrun

/-! ### Reading a record entry back -/

theorem recordMapping_keys_nodup (item : IndexedRecord) :
    ((recordMapping item).map Prod.fst).Nodup := by
  have hkeys : (recordMapping item).map Prod.fst = ["metadata", "offset", "stored_length",
    "decoded_length", "codec", "checksum"].map cps := rfl
  rw [hkeys]
  decide

theorem recordEntry_sortMembers {item : IndexedRecord} {name : String} {v : Value}
    (h : lookup (cps name) (recordMapping item) = some v) :
    recordEntry (Json.sortMembers (recordMapping item)) name = .ok (Json.sortKeys v) := by
  rw [recordEntry, Json.lookup_sortMembers (recordMapping_keys_nodup item), h]
  rfl

theorem checksumText_crc32Hex (payload : Bytes) :
    checksumText (.str (cps (crc32Hex payload))) = .ok (crc32Hex payload) := by
  have hlist : (crc32Hex payload).toList =
      hexText (leBytes 4 (crc32 payload).toNat).reverse := by
    rw [crc32Hex, String.toList_ofList]
  have hlen : (crc32Hex payload).toList.length = 8 := by
    rw [hlist, length_hexText, length_reverse, length_leBytes]
  have hhex : (crc32Hex payload).toList.all isHexChar = true := by
    rw [hlist, all_eq_true]
    exact fun c hc => isHexChar_of_mem_hexText hc
  rw [checksumText, Json.toString?_cps]
  exact if_pos ⟨hlen, hhex⟩

/-- **A record entry is read back** when its payload ends before the footer. -/
theorem parseRecord_recordMapping {buffer : Bytes} {item : IndexedRecord}
    (h : Describes buffer item r) {footerOffset : Nat} (hstart : headerSize ≤ item.offset)
    (hend : item.offset + item.storedLength ≤ footerOffset) :
    parseRecord (Json.sortKeys (.obj (recordMapping item))) footerOffset = .ok item := by
  obtain ⟨metadata, offset, stored, decoded, codec, checksum⟩ := item
  obtain ⟨rfl, rfl, rfl, rfl, rfl, _⟩ := h
  simp only at hstart hend
  rw [Json.sortKeys, parseRecord]
  simp only [recordEntry_sortMembers (show lookup (cps "metadata") _ = _ from rfl),
    recordEntry_sortMembers (show lookup (cps "offset") _ = _ from rfl),
    recordEntry_sortMembers (show lookup (cps "stored_length") _ = _ from rfl),
    recordEntry_sortMembers (show lookup (cps "decoded_length") _ = _ from rfl),
    recordEntry_sortMembers (show lookup (cps "codec") _ = _ from rfl),
    recordEntry_sortMembers (show lookup (cps "checksum") _ = _ from rfl), ok_bind,
    Json.sortKeys, recordInt, checksumText_crc32Hex, r.metadata.fromMapping_sortMembers]
  rw [if_neg (by omega), if_neg (by omega), if_neg (by simp [isText]),
    if_neg (by rw [r.length_eq]; simp)]
  simp only [Int.toNat_natCast]

theorem parseRecordsFrom_recordMapping {buffer : Bytes} {rs : List CaptureRecord}
    (h : List.Forall₂ (Describes buffer) items rs) {footerOffset : Nat} :
    ∀ {start : Nat} {seen : List Text}, headerSize ≤ start → Placed start items footerOffset →
      (seen ++ items.map fun item => item.metadata.captureId).Nodup →
      parseRecordsFrom footerOffset start seen
        (items.map fun item => Json.sortKeys (.obj (recordMapping item))) = .ok items := by
  induction h with
  | nil =>
    intro start seen _ _ _
    rfl
  | @cons item r items rs hitem _ ih =>
    intro start seen hstart hplaced hnodup
    obtain ⟨hoff, hrest⟩ := hplaced
    have hend := hrest.le_stop.1
    have hfresh : item.metadata.captureId ∉ seen := by
      intro hmem
      exact (nodup_append.mp hnodup).2.2 _ hmem _ (mem_map_of_mem mem_cons_self) rfl
    have hnodup' : ((seen ++ [item.metadata.captureId]) ++
        items.map fun item => item.metadata.captureId).Nodup := by
      rwa [append_assoc, singleton_append]
    have htail := ih (by omega : headerSize ≤ item.offset + item.storedLength) hrest hnodup'
    rw [map_cons, parseRecordsFrom, parseRecord_recordMapping hitem (by omega) hend]
    simp only [ok_bind, if_neg hfresh, if_neg (show ¬ item.offset < start by omega), htail]

/-! ### Reading the footer back -/

theorem footerMapping_keys_nodup (packId : String) (createdAtNs : Nat) (records : List Value) :
    ((footerMapping packId createdAtNs records).map Prod.fst).Nodup := by
  have hkeys : (footerMapping packId createdAtNs records).map Prod.fst = ["format",
    "major_version", "minor_version", "pack_id", "created_at_ns", "records"].map cps := rfl
  rw [hkeys]
  decide

theorem plain_recordMapping {item : IndexedRecord} (hoff : item.offset < 2 ^ 64)
    (hstored : item.storedLength < 2 ^ 64) (hdecoded : item.decodedLength < 2 ^ 64) :
    Json.Plain (.obj (recordMapping item)) := by
  refine .obj _ (fun kv h => ?_) ?_
  · have hkey : kv.1 ∈ ["metadata", "offset", "stored_length", "decoded_length", "codec",
      "checksum"].map cps := mem_map_of_mem (f := Prod.fst) h
    obtain ⟨name, _, hname⟩ := mem_map.mp hkey
    intro c hc
    rw [← hname] at hc
    exact Json.scalar_of_mem_cps hc
  · simp only [recordMapping, forall_mem_cons, not_mem_nil, false_implies, implies_true,
      and_true]
    exact ⟨item.metadata.plain, plain_natCast hoff, plain_natCast hstored, plain_natCast hdecoded,
      .cps _, .cps _⟩

theorem plain_footerMapping {packId : String} {createdAtNs : Nat} {records : List Value}
    (hcreated : createdAtNs < 2 ^ 64) (hrecords : ∀ v ∈ records, Json.Plain v) :
    Json.Plain (.obj (footerMapping packId createdAtNs records)) := by
  refine .obj _ (fun kv h => ?_) ?_
  · have hkey : kv.1 ∈ ["format", "major_version", "minor_version", "pack_id", "created_at_ns",
      "records"].map cps := mem_map_of_mem (f := Prod.fst) h
    obtain ⟨name, _, hname⟩ := mem_map.mp hkey
    intro c hc
    rw [← hname] at hc
    exact Json.scalar_of_mem_cps hc
  · simp only [footerMapping, forall_mem_cons, not_mem_nil, false_implies, implies_true,
      and_true]
    exact ⟨.cps _, plain_natCast (by decide), plain_natCast (by decide), .cps _,
      plain_natCast hcreated, .arr _ hrecords⟩

/-- The footer that `seal` writes is the JSON text of the footer object. -/
theorem PackWriter.Holds.footer_eq
    (hw : w.Holds accepted) : w.footer = encodeJson (.obj (footerMapping w.packId w.createdAtNs
      (w.records.map fun item => .obj (recordMapping item)))) := by
  have hjson : w.recordJson = ((w.records.map fun item => Value.obj (recordMapping item)).map
      Json.dumps).map asciiBytes := by
    rw [hw.json_eq, map_map, map_map]
    rfl
  rw [encodeJson, dumps_footerMapping, Json.asciiBytes_append, Json.asciiBytes_cons,
    Json.asciiBytes_append, footer, hw.prefix_eq, hw.suffix_eq, hjson, joinBytes_map_asciiBytes]
  rfl

theorem decodeFooter_encodeJson {packId : String} {createdAtNs : Nat} {records : List Value}
    (h : Json.Plain (.obj (footerMapping packId createdAtNs records))) :
    decodeFooter (encodeJson (.obj (footerMapping packId createdAtNs records))) packMajorVersion
      packMinorVersion = .ok (Json.sortMembers (footerMapping packId createdAtNs records)) := by
  rw [decodeFooter, encodeJson, Json.loads_dumps h, Json.sortKeys]
  rfl

/-! ### Sealing and reading back -/

theorem PackWriter.seal_ok {s : SealedPack} (h : w.seal = (.ok s, w')) :
    w.footer.length ≤ maxFooterBytes ∧ ∃ trailer,
      pack trailerFormat (trailerCells (alignedLength w.buffer.length) w.footer
        (align w.buffer ++ w.footer)) = some trailer ∧
      s = {
        packId := w.packId
        createdAtNs := w.createdAtNs
        data := align w.buffer ++ w.footer ++ trailer
        recordCount := w.records.length
        footerOffset := alignedLength w.buffer.length
        checksum := sha256Hex (align w.buffer ++ w.footer ++ trailer) } := by
  unfold PackWriter.seal at h
  split_ifs at h with hsealed hempty
  · cases h
  · cases h
  · dsimp only at h
    split_ifs at h with hfooter hpack
    · cases h
    · cases h
    · split at h
      · cases h
      · rename_i trailer htrailer
        cases h
        exact ⟨by omega, trailer, htrailer, rfl⟩

/-- **A writer that accepted a record can be sealed**, unless its payloads reach beyond
the 64-bit footer offset of the trailer. -/
theorem PackWriter.Holds.seal_succeeds (hw : w.Holds accepted) (hne : w.records ≠ [])
    (hfits : w.Fits)
    (hoffset : alignedLength w.buffer.length < 2 ^ 64) : ∃ s w', w.seal = (.ok s, w') := by
  obtain ⟨hfooter, hpack⟩ := hfits
  have hflen : w.footer.length < 256 ^ 8 := Nat.lt_of_le_of_lt hfooter (by decide)
  have hcrc : (crc32 w.footer).toNat < 256 ^ 4 := (crc32 w.footer).toNat_lt
  obtain ⟨trailer, htrailer⟩ : ∃ trailer, pack trailerFormat (trailerCells
      (alignedLength w.buffer.length) w.footer (align w.buffer ++ w.footer)) = some trailer :=
    pack_of_fits (.cons trivial (.cons (by decide : (1 : Nat) < 256 ^ 2)
      (.cons (by decide : (0 : Nat) < 256 ^ 2) (.cons hoffset (.cons hflen (.cons hcrc
        (.cons trivial .nil)))))))
  rw [PackWriter.seal, hw.not_sealed, if_neg Bool.false_ne_true, if_neg hne]
  dsimp only
  rw [if_neg (Nat.not_lt.mpr hfooter), if_neg (Nat.not_lt.mpr hpack), htrailer]
  exact ⟨_, _, rfl⟩

/-- The reader of a sealed pack. -/
def PackWriter.reader (w : PackWriter) (s : SealedPack) : PackReader where
  data := s.data
  packId := w.packId
  createdAtNs := w.createdAtNs
  records := w.records
  objectChecksum := s.checksum

theorem length_footer_ge (w : PackWriter) : 2 ≤ w.footer.length := by
  rw [footer]
  simp only [length_append, length_cons]
  omega

/-- The offsets of a pack that can be sealed fit the footer's integers. -/
theorem PackWriter.Holds.plain_footer (hw : w.Holds accepted)
    (hoffset : alignedLength w.buffer.length < 2 ^ 64) (hcreated : w.createdAtNs < 2 ^ 64) :
    Json.Plain (.obj (footerMapping w.packId w.createdAtNs
      (w.records.map fun item => .obj (recordMapping item)))) := by
  refine plain_footerMapping hcreated fun v hv => ?_
  obtain ⟨item, hmem, rfl⟩ := mem_map.mp hv
  have hbound := hw.placed.le_stop.2 item hmem
  have hle := le_alignedLength w.buffer.length
  obtain ⟨r, _, hdesc⟩ := forall₂_exists_right hw.describes item hmem
  have hstored := hdesc.stored_eq
  have hdecoded := hdesc.decoded_eq
  exact plain_recordMapping (by omega) (by omega) (by omega)

variable {records : List IndexedRecord}

/-- The checks of `from_bytes` on the cells the writer packed. -/
theorem PackReader.ofParts_ok {data footer body : Bytes} {uuid : Uuid}
    {createdAtNs footerOffset : Nat}
    {decoded : List (Str × Value)} (hlen : data.length - trailerSize = footerOffset + footer.length)
    (hoffset : headerSize ≤ footerOffset) (hmax : footer.length ≤ maxFooterBytes)
    (hbody : slice data 0 (footerOffset + footer.length) = body)
    (hfooter : slice data footerOffset (footerOffset + footer.length) = footer)
    (hdecode : decodeFooter footer packMajorVersion packMinorVersion = .ok decoded)
    (hid : isText (lookup (cps "pack_id") decoded) (uuidText uuid.bytes) = true)
    (hcreated : isNat (lookup (cps "created_at_ns") decoded) createdAtNs = true)
    (hrecords : parseRecords decoded footerOffset = .ok records) :
    ofParts data (headerCells uuid createdAtNs) (trailerCells footerOffset footer body) =
      .ok {
        data := data
        packId := uuidText uuid.bytes
        createdAtNs := createdAtNs
        records := records
        objectChecksum := sha256Hex data } := by
  simp only [headerCells, trailerCells, ofParts, hlen, hbody, hfooter, hdecode, ok_bind,
    hid, hcreated, hrecords, ne_eq, not_true_eq_false, if_false, or_false, lt_irrefl,
    if_neg (Nat.not_lt.mpr hmax), if_neg (Nat.not_lt.mpr hoffset)]

/-- **`from_bytes` accepts a sealed pack**, and its records are the writer's. -/
theorem PackWriter.Holds.fromBytes_seal {s : SealedPack} (hw : w.Holds accepted)
    (h : w.seal = (.ok s, w')) : fromBytes s.data = .ok (w.reader s) := by
  obtain ⟨hfooter, trailer, htrailer, rfl⟩ := seal_ok h
  obtain ⟨header, hheader, hstarts⟩ := hw.header
  have hoffset : alignedLength w.buffer.length < 2 ^ 64 :=
    lt_of_pack htrailer
      (show (Field.uint 8, _) ∈ _ by simp [trailerFormat, trailerCells])
  have hcreated : w.createdAtNs < 2 ^ 64 :=
    lt_of_pack hheader
      (show (Field.uint 8, _) ∈ _ by simp [headerFormat, headerCells])
  have hhlen : header.length = headerSize := length_pack (headerCells_exact _ _) hheader
  have htlen : trailer.length = trailerSize :=
    length_pack (trailerCells_exact _ _ _) htrailer
  have hblen : headerSize ≤ w.buffer.length := hhlen ▸ hstarts.length_le
  have hale := le_alignedLength w.buffer.length
  have hflen := length_footer_ge w
  have hbody : (align w.buffer ++ w.footer).length
      = alignedLength w.buffer.length + w.footer.length := by
    rw [length_append, length_align]
  have hlen : (align w.buffer ++ w.footer ++ trailer).length - trailerSize
      = alignedLength w.buffer.length + w.footer.length := by
    rw [length_append, htlen, Nat.add_sub_cancel, hbody]
  -- the sealed bytes, seen from the header, from the trailer and from the footer
  have hhead : unpackFrom headerFormat (align w.buffer ++ w.footer ++ trailer)
      = some (headerCells w.uuid w.createdAtNs) := by
    obtain ⟨rest, hrest⟩ := (hstarts.trans (prefix_align w.buffer)).trans
      (prefix_append (align w.buffer) (w.footer ++ trailer))
    rw [append_assoc, ← hrest]
    exact unpackFrom_pack (headerCells_exact _ _) hheader rest
  have htail : unpackFrom trailerFormat ((align w.buffer ++ w.footer ++ trailer).drop
      (alignedLength w.buffer.length + w.footer.length)) = some (trailerCells
        (alignedLength w.buffer.length) w.footer (align w.buffer ++ w.footer)) := by
    rw [← hbody, drop_left, ← append_nil trailer]
    exact unpackFrom_pack (trailerCells_exact _ _ _) htrailer []
  have hslice0 : slice (align w.buffer ++ w.footer ++ trailer) 0
      (alignedLength w.buffer.length + w.footer.length) = align w.buffer ++ w.footer := by
    rw [← hbody, slice, drop_zero, Nat.sub_zero, take_left]
  have hslice : slice (align w.buffer ++ w.footer ++ trailer) (alignedLength w.buffer.length)
      (alignedLength w.buffer.length + w.footer.length) = w.footer := by
    rw [append_assoc, ← length_align]
    exact slice_append_mid _ _ _
  have hmin : ¬ (align w.buffer ++ w.footer ++ trailer).length < headerSize + trailerSize + 2 := by
    omega
  -- the footer is the text of the footer object, whose records parse to the writer's
  have hdecode := decodeFooter_encodeJson (hw.plain_footer hoffset hcreated)
  rw [← hw.footer_eq] at hdecode
  have hlookup := Json.lookup_sortMembers (footerMapping_keys_nodup w.packId w.createdAtNs
    (w.records.map fun item => .obj (recordMapping item)))
  have hparse := parseRecordsFrom_recordMapping hw.describes (Nat.le_refl headerSize)
    (hw.placed.mono hale) (by rw [nil_append, ← hw.ids_eq]; exact hw.ids_nodup)
  have hcount : ¬ maxRecordsLimit < w.records.length := by
    have := hw.count_le
    have := hw.limit_le
    omega
  simp only [fromBytes, if_neg hmin, hlen, hhead, htail]
  have hid : isText (lookup (cps "pack_id") (Json.sortMembers (footerMapping w.packId w.createdAtNs
      (w.records.map fun item => .obj (recordMapping item))))) (uuidText w.uuid.bytes) = true := by
    rw [hlookup, hw.packId_eq]
    exact decide_eq_true rfl
  have hnat : isNat (lookup (cps "created_at_ns") (Json.sortMembers (footerMapping w.packId
      w.createdAtNs (w.records.map fun item => .obj (recordMapping item))))) w.createdAtNs
      = true := by
    exact decide_eq_true rfl
  have hrecords : parseRecords (Json.sortMembers (footerMapping w.packId w.createdAtNs
      (w.records.map fun item => .obj (recordMapping item)))) (alignedLength w.buffer.length)
      = .ok w.records := by
    show (if _ < _ then _ else _) = _
    rw [Json.sortElems_eq_map, map_map, length_map, if_neg hcount]
    exact hparse
  rw [ofParts_ok hlen (by omega) hfooter hslice0 hslice hdecode hid hnat hrecords,
    reader, hw.packId_eq]

/-! ### Descriptors and payloads -/

theorem PackReader.byCaptureId_eq {reader : PackReader}
    (h : (reader.records.map fun item => item.metadata.captureId).Nodup) {item : IndexedRecord}
    (hmem : item ∈ reader.records) : reader.byCaptureId item.metadata.captureId = some item := by
  have hfound : ∃ found, reader.byCaptureId item.metadata.captureId = some found := by
    rw [← Option.isSome_iff_exists, byCaptureId, find?_isSome]
    exact ⟨item, mem_reverse.mpr hmem, decide_eq_true rfl⟩
  obtain ⟨found, hfound⟩ := hfound
  have hid : found.metadata.captureId = item.metadata.captureId :=
    of_decide_eq_true (find?_some (p := fun i : IndexedRecord =>
      decide (i.metadata.captureId = item.metadata.captureId)) hfound)
  have hfmem : found ∈ reader.records := mem_reverse.mp (mem_of_find?_eq_some hfound)
  rw [hfound, inj_on_of_nodup_map h hfmem hmem hid]

/-- A key that names no tenant but the records' own passes the check. -/
theorem descriptorsOf_ok {ref : PackRef}
    (h : ∀ segment ∈ tenantSegment ref.objectKey, ∀ item ∈ records,
      segmentBelongsTo segment item.metadata.tenantId.val = true) :
    descriptorsOf ref records = .ok (records.map (describe ref)) := by
  have hcheck : rejectAForeignTenant ref (records.map fun item => item.metadata.tenantId)
      = .ok () := by
    rw [rejectAForeignTenant]
    cases hseg : tenantSegment ref.objectKey with
    | none => rfl
    | some segment =>
      have hnone : (records.map fun item => item.metadata.tenantId).eraseDups.find?
          (fun tenant => !segmentBelongsTo segment tenant.val) = none := by
        rw [find?_eq_none]
        intro tenant htenant
        rw [mem_eraseDups] at htenant
        obtain ⟨item, hitem, rfl⟩ := mem_map.mp htenant
        rw [h segment hseg item hitem]
        exact Bool.false_ne_true
      simp only [hnone]
  rw [descriptorsOf, hcheck]
  rfl

/-- **A payload is read back byte for byte.** -/
theorem PackReader.readPayload_ok {reader : PackReader} {ref : PackRef} {item : IndexedRecord}
    (hpack : ref.packId = reader.packId)
    (hids : (reader.records.map fun item => item.metadata.captureId).Nodup)
    (hmem : item ∈ reader.records) (hdesc : Describes reader.data item r) :
    reader.readPayload (describe ref item) = .ok r.payload := by
  have hfind := byCaptureId_eq hids hmem
  have hverify : verifyPayload (describe ref item) r.payload = .ok () := by
    simp only [verifyPayload, describe, hdesc.stored_eq, hdesc.decoded_eq, hdesc.codec_eq,
      hdesc.checksum_eq, ne_eq, not_true_eq_false, if_false]
  rw [readPayload]
  simp only [show (describe ref item).captureId = item.metadata.captureId from rfl, hfind,
    hdesc.payload_eq, hverify]
  rw [if_neg (by simpa [describe] using hpack), if_neg (by simp [describe]),
    if_neg (by simp [describe])]
  rfl

/-- **A sealed pack gives back what was appended.**  For every sequence of appends to a
fresh writer, accepted or refused, a pack that seals is accepted by `from_bytes`.  Under
any key that names no other tenant its descriptors list the accepted records in append
order with their metadata, and each payload is read back.  The reader's checksum, pack id
and creation time are those of the sealed pack. -/
theorem sealed_pack_reads_back (uuid : Uuid) (createdAtNs maxPackBytes maxRecords : Int)
    (fresh : PackWriter)
    (hinit : PackWriter.init uuid createdAtNs maxPackBytes maxRecords = .ok fresh)
    (appended : List CaptureRecord) (sealed : SealedPack) (after : PackWriter)
    (hseal : (fresh.appendAll appended).1.seal = (.ok sealed, after)) :
    ∃ reader, PackReader.fromBytes sealed.data = .ok reader ∧
      reader.objectChecksum = sealed.checksum ∧ reader.packId = sealed.packId ∧
      reader.createdAtNs = sealed.createdAtNs ∧
      ∀ storeId objectKey : String,
        (∀ segment ∈ tenantSegment objectKey, ∀ r ∈ (fresh.appendAll appended).2,
          segmentBelongsTo segment r.metadata.tenantId.val = true) →
        ∃ descriptors, reader.descriptors storeId objectKey = .ok descriptors ∧
          List.Forall₂ (fun d r => d.metadata = r.metadata ∧ reader.readPayload d = .ok r.payload)
            descriptors (fresh.appendAll appended).2 := by
  have hw := appendAll_holds (init_holds hinit) appended
  generalize (fresh.appendAll appended).1 = w at hw hseal
  generalize (fresh.appendAll appended).2 = accepted at hw
  have hread := hw.fromBytes_seal hseal
  obtain ⟨_, trailer, _, rfl⟩ := seal_ok hseal
  refine ⟨_, hread, rfl, rfl, rfl, fun storeId objectKey hkey => ?_⟩
  have hdesc : List.Forall₂ (Describes (align w.buffer ++ w.footer ++ trailer)) w.records
      accepted := by
    rw [align, append_assoc, append_assoc]
    exact describes_append hw.describes hw.placed _
  have hids : (w.records.map fun item => item.metadata.captureId).Nodup := by
    rw [← hw.ids_eq]
    exact hw.ids_nodup
  have hforeign : ∀ segment ∈ tenantSegment objectKey, ∀ item ∈ w.records,
      segmentBelongsTo segment item.metadata.tenantId.val = true := by
    intro segment hsegment item hitem
    obtain ⟨r, hr, hitem⟩ := forall₂_exists_right hdesc item hitem
    rw [hitem.metadata_eq]
    exact hkey segment hsegment r hr
  refine ⟨_, descriptorsOf_ok hforeign, ?_⟩
  rw [forall₂_map_left_iff]
  have hmem := (forall₂_and_left _ _).mpr ⟨fun item (h : item ∈ w.records) => h, hdesc⟩
  refine hmem.imp fun item r h => ⟨h.2.metadata_eq, ?_⟩
  exact readPayload_ok rfl hids h.1 h.2

/-- One record appended twice: the first is accepted, the second refused as a duplicate. -/
theorem sealed_pack_reads_back_duplicate : ∃ fresh sealed after reader,
    PackWriter.init ⟨List.replicate 16 7, rfl⟩ 5 4096 10 = .ok fresh ∧
    (fresh.appendAll [sampleRecord ⟨"c", by decide, by decide⟩ ⟨"t", by decide, by decide⟩ 3
        (by decide),
      sampleRecord ⟨"c", by decide, by decide⟩ ⟨"t", by decide, by decide⟩ 3 (by decide)]).1.seal
      = (.ok sealed, after) ∧
    PackReader.fromBytes sealed.data = .ok reader ∧ reader.packId = sealed.packId := by
  generalize hr : sampleRecord ⟨"c", by decide, by decide⟩ ⟨"t", by decide, by decide⟩ 3
    (by decide) = r
  have hrun : ((init ⟨List.replicate 16 7, rfl⟩ 5 4096 10).toOption.any fun fresh =>
      (fresh.appendAll [r, r]).1.records ≠ [] ∧ (fresh.appendAll [r, r]).1.Fits ∧
        alignedLength (fresh.appendAll [r, r]).1.buffer.length < 2 ^ 64) = true := by
    rw [← hr]
    decide +kernel
  obtain ⟨fresh, hinit, hrun⟩ := exists_of_any hrun
  have hw := appendAll_holds (init_holds hinit) [r, r]
  obtain ⟨hne, hfits, hoffset⟩ := of_decide_eq_true hrun
  obtain ⟨sealed, after, hseal⟩ := hw.seal_succeeds hne hfits hoffset
  obtain ⟨reader, hread, _, hid, _⟩ :=
    sealed_pack_reads_back _ _ _ _ fresh hinit [r, r] sealed after hseal
  exact ⟨fresh, sealed, after, reader, hinit, hseal, hread, hid⟩

end Dmi.Capture
