import Mathlib.Algebra.BigOperators.Ring.List
import Mathlib.Data.List.TakeWhile
import Dmi.Lib.Escape
import Dmi.Capture.Pack.Reader
import Dmi.Native.PackBuilder

/-!
# The row of a footer record

The indexer reads a pack's footer and renders each record as the text of a SQL tuple.

`logical_bytes` multiplies the element size and the dimensions in 64 bits and gives up when the
next factor would overflow; `CaptureMetadata` multiplies exactly.  The two differ where a zero
stands behind dimensions whose product leaves 64 bits (`logicalBytes_eq`).

Hydration splits the row again (`splitFooterRow`) and gets back every field as it was rendered:
`unquoteSql` undoes the escapes of `sqlQuote`, a bare token ends at the first comma outside
brackets, and a field is `NULL` only if it was not quoted.
-/

namespace Dmi.Native

open List Escape
open Capture (CaptureMetadata DType IndexedRecord PackRef)

/-! ### The size of a record -/

/-- `dtype_bytes`. -/
def dtypeBytes (dtype : Bytes) : Option Nat :=
  if !dtypeSupported dtype then none
  else if ["bool", "uint8", "int8", "float8_e4m3fn", "float8_e5m2"].any (dtype = lit ·) then some 1
  else if ["uint16", "int16", "bfloat16", "float16"].any (dtype = lit ·) then some 2
  else if ["uint32", "int32", "float32"].any (dtype = lit ·) then some 4
  else if ["uint64", "int64", "float64"].any (dtype = lit ·) then some 8
  else none

theorem dtypeBytes_name (d : DType) : dtypeBytes (utf8 d.name) = some d.bytes := by
  cases d <;> decide

/-- The loop of `logical_bytes` with its product so far; nothing when the next factor would
overflow. -/
def logicalBytesFrom : Nat → List Nat → Option Nat
  | product, [] => some product
  | product, dim :: dims =>
    if dim = 0 then logicalBytesFrom 0 dims
    else if (2 ^ 64 - 1) / dim < product then none
    else logicalBytesFrom (product * dim % 2 ^ 64) dims

/-- `logical_bytes`. -/
def logicalBytes (dims : List Nat) (elementBytes : Nat) : Option Nat :=
  logicalBytesFrom elementBytes dims

/-- The element size and the dimensions in front of the first zero multiply to 64 bits. -/
def FitsBeforeZero (m : CaptureMetadata) : Prop :=
  m.dtype.bytes * (m.shape.dims.takeWhile (· ≠ 0)).prod < 2 ^ 64

theorem logicalBytesFrom_zero (dims : List Nat) : logicalBytesFrom 0 dims = some 0 := by
  induction dims with
  | nil => rfl
  | cons d ds ih =>
    rw [logicalBytesFrom, if_neg (Nat.not_lt_zero _), Nat.zero_mul, Nat.zero_mod, ih, ite_self]

/-- **The product from the left**: it is given up when it leaves 64 bits before a zero. -/
theorem logicalBytesFrom_eq {product : Nat} (hproduct : product < 2 ^ 64) (dims : List Nat) :
    logicalBytesFrom product dims =
      if product * (dims.takeWhile (· ≠ 0)).prod < 2 ^ 64 then some (product * dims.prod)
      else none := by
  induction dims generalizing product with
  | nil =>
    rw [takeWhile_nil, prod_nil, Nat.mul_one, if_pos hproduct]
    rfl
  | cons d ds ih =>
    rw [logicalBytesFrom]
    split
    next hd =>
      rw [hd, logicalBytesFrom_zero, takeWhile_cons_of_neg (by decide), prod_nil, Nat.mul_one,
        if_pos hproduct, prod_cons, Nat.zero_mul, Nat.mul_zero]
    next hd =>
      have hpos : 0 < (ds.takeWhile (· ≠ 0)).prod := by
        rw [Nat.pos_iff_ne_zero]
        exact prod_ne_zero fun hzero => absurd (mem_takeWhile_imp hzero) (by decide)
      have hover := Nat.div_lt_iff_lt_mul (x := 2 ^ 64 - 1) (y := product) (Nat.pos_of_ne_zero hd)
      rw [takeWhile_cons_of_pos (by simpa using hd), prod_cons, prod_cons, ← Nat.mul_assoc,
        ← Nat.mul_assoc]
      split
      next h =>
        have hle := Nat.le_mul_of_pos_right (product * d) hpos
        rw [if_neg (by omega)]
      next h => rw [Nat.mod_eq_of_lt (by omega), ih (by omega)]

theorem logicalBytes_eq (m : CaptureMetadata) [Decidable (FitsBeforeZero m)] :
    logicalBytes m.shape.dims m.dtype.bytes =
      if FitsBeforeZero m then some m.logicalBytes else none := by
  have hbytes : m.dtype.bytes < 2 ^ 64 := by
    cases m.dtype <;> decide
  rw [logicalBytes, logicalBytesFrom_eq hbytes, CaptureMetadata.logicalBytes,
    Nat.mul_comm _ m.dtype.bytes]
  exact if_congr Iff.rfl rfl rfl

/-- **The size check of the indexer**, for every metadata record: what `logical_bytes` returns is
the size that `CaptureMetadata` computes, and the check passes for the same decoded lengths
exactly if no dimension is zero or the factors in front of the first zero fit 64 bits. -/
theorem logicalBytes_agrees_iff (m : CaptureMetadata) :
    ((dtypeBytes (utf8 m.dtype.name)).bind (logicalBytes m.shape.dims) ∈
      [none, some m.logicalBytes]) ∧
    ((∀ decoded : UInt64,
      (dtypeBytes (utf8 m.dtype.name)).bind (logicalBytes m.shape.dims) = some decoded.toNat ↔
        m.logicalBytes = decoded.toNat) ↔
      0 ∉ m.shape.dims ∨ FitsBeforeZero m) := by
  classical
  rw [dtypeBytes_name, Option.bind_some, logicalBytes_eq]
  split
  next hfits => exact ⟨by simp, iff_of_true (fun _ => Option.some_inj) (.inr hfits)⟩
  next hfits =>
    refine ⟨by simp, fun h => .inl fun hzero => ?_, ?_⟩
    · have hsize : m.logicalBytes = (0 : UInt64).toNat := by
        rw [CaptureMetadata.logicalBytes, prod_eq_zero hzero, Nat.zero_mul]
        rfl
      exact nomatch (h 0).mpr hsize
    · rintro (hzero | h)
      · refine fun decoded => iff_of_false nofun fun h => hfits ?_
        -- without a zero the dimensions in front of it are all of them
        have hall : m.shape.dims.takeWhile (· ≠ 0) = m.shape.dims :=
          takeWhile_eq_self_iff.mpr fun d hd => decide_eq_true fun h0 => hzero (h0 ▸ hd)
        rw [FitsBeforeZero, hall, Nat.mul_comm, ← CaptureMetadata.logicalBytes, h]
        exact decoded.toNat_lt
      · exact absurd h hfits

/-- Three dimensions of `2 ^ 31 - 1` and a zero: the tensor is empty, and `logical_bytes` gives
up before it reaches the zero. -/
theorem logicalBytes_refuses_empty : ∃ shape : Capture.Shape,
    shape.dims = [2 ^ 31 - 1, 2 ^ 31 - 1, 2 ^ 31 - 1, 0] ∧
    shape.dims.prod * DType.uint8.bytes = 0 ∧
    logicalBytes shape.dims DType.uint8.bytes = none :=
  ⟨⟨[2 ^ 31 - 1, 2 ^ 31 - 1, 2 ^ 31 - 1, 0], by decide, by decide⟩, by decide, by decide, by decide⟩

/-! ### SQL literals -/

/-- The control characters that `sql_quote` escapes and `unquote_sql` decodes. -/
def controlEscapes : List (UInt8 × UInt8) :=
  [(0x08, 0x62), (0x0C, 0x66), (0x0D, 0x72), (0x0A, 0x6E), (0x09, 0x74), (0x00, 0x30), (0x07, 0x61),
    (0x0B, 0x76)]

/-- The map of `sql_quote`: those, the backslash and the quote. -/
def sqlEscapes : List (UInt8 × UInt8) := controlEscapes ++ [(0x5C, 0x5C), (0x27, 0x27)]

/-- `sql_quote`. -/
def sqlQuote (value : Bytes) : Bytes := 0x27 :: (value.flatMap (Escape.escape sqlEscapes) ++ [0x27])

/-- `unquote_sql` behind the opening quote: the text, and what follows the closing quote. -/
def unquoteSql : Bytes → Option (Bytes × Bytes)
  | [] => none
  | c :: rest =>
    if c = 0x5C then
      match rest with
      | next :: rest =>
        (unquoteSql rest).map (Prod.map (Escape.unescape controlEscapes next :: ·) id)
      | [] => none
    else if c = 0x27 then some ([], rest)
    else (unquoteSql rest).map (Prod.map (c :: ·) id)

theorem unquoteSql_escaped (value rest : Bytes) :
    unquoteSql (value.flatMap (escape sqlEscapes) ++ 0x27 :: rest) = some (value, rest) := by
  induction value with
  | nil =>
    rw [flatMap_nil, nil_append, unquoteSql.eq_def]
    rfl
  | cons c value ih =>
    rw [flatMap_cons, append_assoc]
    rcases escape_cases sqlEscapes c with ⟨h, hplain⟩ | ⟨p, hp, rfl, h⟩
    · have hbackslash : c ≠ 0x5C := hplain (0x5C, 0x5C) (by decide)
      have hquote : c ≠ 0x27 := hplain (0x27, 0x27) (by decide)
      rw [h, singleton_append, unquoteSql.eq_def]
      simp only [if_neg hbackslash, if_neg hquote, ih]
      rfl
    · have hletters :
          sqlEscapes.all (fun p => unescape controlEscapes p.2 = p.1) = true := by decide
      rw [h, cons_append, singleton_append, unquoteSql.eq_def]
      simp only [backslash, if_true, ih, of_decide_eq_true (all_eq_true.mp hletters p hp)]
      rfl

/-- `sql_uuid` takes digits in the canonical layout, or 32 digits. -/
def isUuidText (value : Bytes) : Bool :=
  if value.length = 36 then
    value.zipIdx.all fun (c, i) =>
      if i ∈ [8, 13, 18, 23] then c = 0x2D else (nibble? c).isSome
  else value.length = 32 && value.all fun c => (nibble? c).isSome

/-! ### Rows -/

/-- `NULL`. -/
def nullText : Bytes := [0x4E, 0x55, 0x4C, 0x4C]

/-- A field as `render_record_row` types it. -/
inductive Column where
  | text (value : Bytes)
  | null
  | number (n : Int)
  | array (dims : List Nat)
  | uuid (value : Bytes)

/-- Fields with commas between them. -/
def joinFields : List Bytes → Bytes
  | [] => []
  | [field] => field
  | field :: next :: fields => field ++ 0x2C :: joinFields (next :: fields)

def Column.render : Column → Bytes
  | text value => sqlQuote value
  | null => nullText
  | number n => intValue n
  | array dims => 0x5B :: (joinFields (dims.map uintValue) ++ [0x5D])
  | uuid value => lit "toUUID('" ++ (value ++ lit "')")

/-- The fields of `render_record_row`, in its order. -/
def recordColumns (r : IndexedRecord) (ref : PackRef) : List Column :=
  let m := r.metadata
  [.text (utf8 m.captureId.val), .text (utf8 m.tenantId.val), .text (utf8 m.experimentId.val),
    .text (utf8 m.runId.val), .text (utf8 m.sessionId.val), .text (utf8 m.requestId.val),
    .text (utf8 m.sequenceId.val), .text (utf8 m.modelId.val), .text (utf8 m.modelRevision.val),
    m.adapterRevision.elim .null fun t => .text (utf8 t.val),
    .text (utf8 m.capturePolicyVersion.val), .text (utf8 m.hookName.val),
    .number m.layerNumber.val, .number m.producerRank.toNat, .number m.stepNumber.toNat,
    .number m.tokenStart.toNat, .number m.tokenEnd.toNat, .number m.batchPosition.toNat,
    .text (utf8 m.dtype.name), .array m.shape.dims, .number m.capturedAtNs.toNat,
    .uuid (utf8 ref.packId), .text (utf8 ref.storeId), .text (utf8 ref.objectKey),
    .number ref.objectBytes, .text (utf8 ref.checksum), .number ref.recordCount,
    .number r.offset, .number r.storedLength, .number r.decodedLength, .text (utf8 r.codec),
    .text (utf8 r.checksum)]

/-- The text that `render_record_row` returns; it throws when the pack id is not a UUID. -/
def renderRecordRow (r : IndexedRecord) (ref : PackRef) : Option Bytes :=
  if isUuidText (utf8 ref.packId) then some (joinFields ((recordColumns r ref).map Column.render))
  else none

structure FooterField where
  isNull : Bool
  text : Bytes
  deriving DecidableEq

/-- What a byte does to the number of open brackets. -/
def nest (c : UInt8) (depth : Int) : Int :=
  if c = 0x5B then depth + 1 else if c = 0x5D then depth - 1 else depth

/-- A bare token: up to the first comma outside brackets, without its spaces. -/
def bareToken : Int → Bytes → Bytes × Bytes
  | _, [] => ([], [])
  | depth, c :: rest =>
    if c = 0x2C ∧ depth = 0 then ([], c :: rest)
    else
      let (text, rest) := bareToken (nest c depth) rest
      (if c = 0x20 then text else c :: text, rest)

/-- One field of `split_footer_row`, and the text behind it. -/
def readField (row : Bytes) : Option (FooterField × Bytes) :=
  if row.head? = some 0x27 then (unquoteSql row.tail).map (Prod.map (⟨false, ·⟩) id)
  else if lit "toUUID('" <+: row then
    match unquoteSql (row.drop 8) with
    | some (text, 0x29 :: rest) => some (⟨false, text⟩, rest)
    | _ => none
  else
    let (text, rest) := bareToken 0 row
    some (if text = nullText then ⟨true, []⟩ else ⟨false, text⟩, rest)

def skipSpaces (row : Bytes) : Bytes := row.dropWhile (· == 0x20)

/-- The loop of `split_footer_row`; every turn but the last takes a comma. -/
def splitFields : Nat → Bytes → Option (List FooterField)
  | 0, _ => none
  | turns + 1, row =>
    match readField (skipSpaces row) with
    | none => none
    | some (field, rest) =>
      match skipSpaces rest with
      | [] => some [field]
      | c :: rest => if c = 0x2C then (splitFields turns rest).map (field :: ·) else none

/-- `split_footer_row`. -/
def splitFooterRow (rendered : Bytes) : Option (List FooterField) :=
  splitFields (rendered.length + 1) rendered

/-- The field that a column is read back as. -/
def Column.field : Column → FooterField
  | text value | uuid value => ⟨false, value⟩
  | null => ⟨true, []⟩
  | number n => ⟨false, intValue n⟩
  | array dims => ⟨false, 0x5B :: (joinFields (dims.map uintValue) ++ [0x5D])⟩

/-! ### Reading a row back -/

/-- The bytes that matter at the beginning of a token or inside it. -/
def special : Bytes := lit ", []'tN"

/-- The brackets of a token close, no comma stands outside them, and there are no spaces. -/
def Bare : Int → Bytes → Prop
  | depth, [] => depth = 0
  | depth, c :: rest => (c = 0x2C → depth ≠ 0) ∧ c ≠ 0x20 ∧ Bare (nest c depth) rest

/-- What may follow a field. -/
def Ends (rest : Bytes) : Prop := rest = [] ∨ rest.head? = some 0x2C

variable {text rest : Bytes} {depth : Int}

theorem bareToken_append (h : Bare depth text) (hrest : Ends rest) :
    bareToken depth (text ++ rest) = (text, rest) := by
  induction text generalizing depth with
  | nil =>
    obtain rfl : depth = 0 := h
    rcases hrest with rfl | hrest
    · rfl
    · obtain ⟨rest, rfl⟩ := head?_eq_some_iff.mp hrest
      rfl
  | cons c text ih =>
    rw [cons_append, bareToken, if_neg fun hc => h.1 hc.1 hc.2, ih h.2.2]
    exact congrArg (·, rest) (if_neg h.2.1)

theorem bare_append (h : ∀ c ∈ text, c ∉ special) :
    Bare depth (text ++ rest) ↔ Bare depth rest := by
  induction text with
  | nil => rfl
  | cons c text ih =>
    have hc : ∀ d ∈ special, c ≠ d := fun d hd hcd => h c mem_cons_self (hcd ▸ hd)
    have hnest : nest c depth = depth := by
      rw [nest, if_neg (hc 0x5B (by decide)), if_neg (hc 0x5D (by decide))]
    rw [cons_append, Bare, hnest, ih fun d hd => h d (mem_cons_of_mem c hd)]
    exact ⟨fun h => h.2.2, fun h => ⟨fun hcomma => absurd hcomma (hc 0x2C (by decide)),
      hc 0x20 (by decide), h⟩⟩

theorem not_special_of_mem_uintValue {n : Nat} {c : UInt8} (h : c ∈ uintValue n) : c ∉ special := by
  obtain ⟨d, hd, rfl⟩ := mem_map.mp h
  have hdigit := Json.isDigit_of_mem_decimal hd
  have hall : ∀ d < 58, Json.isDigit d = true → UInt8.ofNat d ∉ special := by decide
  have hle : d ≤ 57 := by
    simp only [Json.isDigit, Bool.and_eq_true, decide_eq_true_eq] at hdigit
    exact hdigit.2
  exact hall d (Nat.lt_succ_of_le hle) hdigit

theorem not_special_of_mem_intValue {n : Int} {c : UInt8} (h : c ∈ intValue n) : c ∉ special := by
  cases n with
  | ofNat n => exact not_special_of_mem_uintValue h
  | negSucc n =>
    rcases mem_cons.mp h with rfl | h
    · decide
    · exact not_special_of_mem_uintValue h

theorem intValue_ne_nil (n : Int) : intValue n ≠ [] := by
  cases n with
  | ofNat n => exact fun h => Json.decimal_ne_nil n (map_eq_nil_iff.mp h)
  | negSucc n => exact cons_ne_nil _ _

theorem skipSpaces_cons {c : UInt8} (h : c ≠ 0x20) : skipSpaces (c :: rest) = c :: rest :=
  dropWhile_cons_of_neg (by simpa using h)

theorem bare_array (dims : List Nat) :
    Bare 0 (0x5B :: (joinFields (dims.map uintValue) ++ [0x5D])) := by
  have hinside : ∀ dims : List Nat, Bare 1 (joinFields (dims.map uintValue) ++ [0x5D]) := by
    intro dims
    induction dims with
    | nil => exact ⟨by decide, by decide, rfl⟩
    | cons d dims ih =>
      cases dims with
      | nil => exact (bare_append fun c => not_special_of_mem_uintValue).mpr ih
      | cons e dims =>
        rw [map_cons, map_cons, joinFields, append_assoc,
          bare_append fun c => not_special_of_mem_uintValue]
        exact ⟨by decide, by decide, ih⟩
  exact ⟨by decide, by decide, hinside dims⟩

theorem readField_bare {c : UInt8} (h : Bare 0 (c :: text)) (hc : c ≠ 0x27 ∧ c ≠ 0x74)
    (hrest : Ends rest) : readField (skipSpaces (c :: text ++ rest)) =
      some (if c :: text = nullText then ⟨true, []⟩ else ⟨false, c :: text⟩, rest) := by
  have hquote : (c :: text ++ rest).head? ≠ some 0x27 := fun h => hc.1 (Option.some.inj h)
  have huuid : ¬ lit "toUUID('" <+: c :: text ++ rest := fun h =>
    hc.2 (cons_prefix_cons.mp h).1.symm
  rw [cons_append, skipSpaces_cons h.2.1, ← cons_append, readField, if_neg hquote, if_neg huuid,
    bareToken_append h hrest]

theorem escape_uuid {value : Bytes} (h : isUuidText value = true) :
    value.flatMap (escape sqlEscapes) = value := by
  have hdigits : ∀ c ∈ value, c = 0x2D ∨ (nibble? c).isSome = true := by
    intro c hc
    unfold isUuidText at h
    split at h
    next =>
      obtain ⟨i, hi⟩ := mem_iff_getElem?.mp hc
      have hall := all_eq_true.mp h (c, i) (mk_mem_zipIdx_iff_getElem?.mpr hi)
      dsimp only at hall
      split at hall
      · exact .inl (of_decide_eq_true hall)
      · exact .inr hall
    next => exact .inr (all_eq_true.mp (Bool.and_eq_true_iff.mp h).2 c hc)
  have hall : sqlEscapes.all (fun p => p.1 ≠ 0x2D ∧ nibble? p.1 = none) = true := by decide
  have hkeys := fun p hp => of_decide_eq_true (all_eq_true.mp hall p hp)
  clear h
  induction value with
  | nil => rfl
  | cons c value ih =>
    rw [flatMap_cons, ih fun d hd => hdigits d (mem_cons_of_mem c hd)]
    rcases escape_cases sqlEscapes c with ⟨h, -⟩ | ⟨p, hp, rfl, -⟩
    · rw [h, singleton_append]
    · rcases hdigits p.1 mem_cons_self with h | h
      · exact absurd h (hkeys p hp).1
      · rw [(hkeys p hp).2] at h
        cases h

/-- **A field is read back** as the column it was rendered from. -/
theorem readField_render (column : Column)
    (huuid : ∀ value, column = .uuid value → isUuidText value = true) (hrest : Ends rest) :
    readField (skipSpaces (column.render ++ rest)) = some (column.field, rest) := by
  cases column with
  | text value =>
    rw [Column.render, sqlQuote, cons_append, append_assoc, singleton_append,
      skipSpaces_cons (by decide), readField, head?_cons, if_pos rfl, tail_cons, unquoteSql_escaped]
    rfl
  | uuid value =>
    have hread := unquoteSql_escaped value (0x29 :: rest)
    rw [escape_uuid (huuid value rfl)] at hread
    have hrow : skipSpaces (Column.render (.uuid value) ++ rest) =
        lit "toUUID('" ++ (value ++ 0x27 :: 0x29 :: rest) := by
      rw [Column.render, append_assoc, append_assoc]
      rfl
    have hquote : (lit "toUUID('" ++ (value ++ 0x27 :: 0x29 :: rest)).head? ≠ some 0x27 := nofun
    have hdrop : (lit "toUUID('" ++ (value ++ 0x27 :: 0x29 :: rest)).drop 8 =
        value ++ 0x27 :: 0x29 :: rest := rfl
    rw [hrow, readField, if_neg hquote, if_pos (prefix_append _ _), hdrop, hread]
    rfl
  | null => exact readField_bare (by simp [Bare, nest]) (by decide) hrest
  | number n =>
    obtain ⟨c, text, hcons⟩ := exists_cons_of_ne_nil (intValue_ne_nil n)
    have hspecial : ∀ d ∈ c :: text, d ∉ special := fun d hd =>
      not_special_of_mem_intValue (hcons ▸ hd)
    have hc : ∀ d ∈ special, c ≠ d := fun d hd hcd => hspecial c mem_cons_self (hcd ▸ hd)
    have hbare : Bare 0 (c :: text) := by
      rw [← append_nil (c :: text), bare_append hspecial]
      rfl
    have hnull : c :: text ≠ nullText := fun h => hc 0x4E (by decide) (List.cons.inj h).1
    rw [Column.render, Column.field, hcons,
      readField_bare hbare ⟨hc _ (by decide), hc _ (by decide)⟩ hrest, if_neg hnull]
  | array dims => exact readField_bare (bare_array dims) (by decide) hrest

variable {columns : List Column}

theorem splitFields_columns (huuid : ∀ value, .uuid value ∈ columns → isUuidText value = true)
    (hne : columns ≠ []) {turns : Nat} (hturns : columns.length ≤ turns) :
    splitFields turns (joinFields (columns.map Column.render)) =
      some (columns.map Column.field) := by
  induction columns generalizing turns with
  | nil => exact absurd rfl hne
  | cons column columns ih =>
    obtain ⟨turns, rfl⟩ := Nat.exists_eq_succ_of_ne_zero (Nat.ne_of_gt (Nat.lt_of_lt_of_le
      (Nat.succ_pos _) hturns))
    have hown : ∀ value, column = .uuid value → isUuidText value = true :=
      fun value h => huuid value (h ▸ mem_cons_self)
    cases columns with
    | nil =>
      have hread := readField_render column hown (.inl rfl)
      rw [append_nil] at hread
      rw [map_cons, map_nil, joinFields, splitFields, hread]
      rfl
    | cons next columns =>
      have htail := ih (fun value h => huuid value (mem_cons_of_mem _ h)) (cons_ne_nil _ _)
        (Nat.le_of_succ_le_succ hturns)
      rw [map_cons, map_cons, joinFields, splitFields, readField_render column hown (.inr rfl),
        ← map_cons]
      show (splitFields turns _).map _ = _
      rw [htail]
      rfl

theorem length_le_joinFields (fields : List Bytes) :
    fields.length ≤ (joinFields fields).length + 1 := by
  fun_induction joinFields fields with
  | case1 | case2 => simp
  | case3 field next fields ih =>
    simp only [length_append, length_cons] at ih ⊢
    omega

end Dmi.Native
