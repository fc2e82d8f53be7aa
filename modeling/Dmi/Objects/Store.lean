import Dmi.Lib.Dict
import Dmi.Lib.Json.RoundTrip
import Dmi.Native.PackBuilder

/-!
# Pack objects and what the reconciler accepts

An object of the store has bytes and metadata. The uploader writes five metadata texts beside the
bytes of a pack (`packMetadata`); after a crash the reconciler has nothing but the object, and
`reconcileRef` is what it makes of one: a reference to index, or nothing when it skips it.

Texts are byte strings, as in the native code.
-/

namespace Dmi.Objects

open List

open Native (lit parseUuid)

structure Object where
  bytes : Bytes
  metadata : Dict Bytes Bytes

/-- `ObjectHead` of an object that was found. -/
structure ObjectHead where
  size : Nat
  metadata : Dict Bytes Bytes

def Object.head (o : Object) : ObjectHead := ⟨o.bytes.length, o.metadata⟩

/-- `Sha256Hex`. -/
def checksumOf (data : Bytes) : Bytes := lit (sha256Hex data)

/-! ### Numbers -/

/-- `std::to_string(n)`. -/
def toText (n : Nat) : Bytes := Json.asciiBytes (Json.decimal n)

def isSpace (c : UInt8) : Bool := c == 0x20 || (0x09 ≤ c && c ≤ 0x0D)

def isDigit (c : UInt8) : Bool := 0x30 ≤ c && c ≤ 0x39

/-- `std::stoull(text)`: blanks, a sign and digits; what follows is not read, and a negative
number wraps. `none` is an exception. -/
def stoull (text : Bytes) : Option Nat :=
  let text := text.dropWhile isSpace
  let negative := text.head? = some 0x2D
  let digits := (if text.head? = some 0x2B ∨ negative then text.drop 1 else text).takeWhile isDigit
  let n := Json.digitsValue (digits.map UInt8.toNat)
  if digits = [] ∨ 2 ^ 64 ≤ n then none
  else some (if negative then (2 ^ 64 - n) % 2 ^ 64 else n)

/-- The digits that a number is written with; none of them is a blank or a sign. -/
theorem toText_digits (n : Nat) : (toText n).map UInt8.toNat = Json.decimal n ∧
    ∀ c ∈ toText n, isDigit c = true ∧ isSpace c = false ∧ c ≠ 0x2B ∧ c ≠ 0x2D := by
  have hdigit : ∀ m ∈ Json.decimal n, m < 58 ∧ 48 ≤ m := by
    intro m hm
    have hd := Json.isDigit_of_mem_decimal hm
    simp only [Json.isDigit, Bool.and_eq_true, decide_eq_true_eq] at hd
    exact ⟨Nat.lt_succ_of_le hd.2, hd.1⟩
  constructor
  · have hascii : ∀ m < 58, (UInt8.ofNat m).toNat = m := by decide
    rw [toText, Json.asciiBytes, map_map]
    exact (map_congr_left fun m hm => hascii m (hdigit m hm).1).trans (map_id _)
  · have hascii : ∀ m < 58, 48 ≤ m → isDigit (UInt8.ofNat m) = true ∧
        isSpace (UInt8.ofNat m) = false ∧ UInt8.ofNat m ≠ 0x2B ∧ UInt8.ofNat m ≠ 0x2D := by
      decide
    intro c hc
    obtain ⟨m, hm, rfl⟩ := mem_map.mp hc
    exact hascii m (hdigit m hm).1 (hdigit m hm).2

theorem stoull_toText {n : Nat} (hn : n < 2 ^ 64) : stoull (toText n) = some n := by
  obtain ⟨hvalue, hdigit⟩ := toText_digits n
  have hne : toText n ≠ [] := fun h => Json.decimal_ne_nil n (by rw [← hvalue, h]; rfl)
  obtain ⟨c, rest, htext⟩ := exists_cons_of_ne_nil hne
  obtain ⟨-, hspace, hplus, hminus⟩ := hdigit c (htext ▸ mem_cons_self)
  have hdrop : (toText n).dropWhile isSpace = toText n := by
    rw [htext, dropWhile_cons_of_neg (by simp [hspace])]
  have hhead : (toText n).head? = some c := by
    rw [htext]
    rfl
  have htake : (toText n).takeWhile isDigit = toText n := by
    have h : (toText n ++ []).takeWhile isDigit = toText n ++ [].takeWhile isDigit :=
      takeWhile_append_of_pos fun c hc => (hdigit c hc).1
    rwa [append_nil, takeWhile_nil, append_nil] at h
  have hnumber : Json.digitsValue ((toText n).map UInt8.toNat) = n := by
    rw [hvalue, Json.digitsValue_decimal]
  simp only [stoull, hdrop, hhead, Option.some.injEq, hplus, hminus, or_self, if_false, htake,
    hnumber, hne, Nat.not_le.mpr hn]

/-! ### The metadata of a pack -/

/-- `PackMetadata(staged)`. -/
def packMetadata (packId checksum : Bytes) (recordCount createdAtNs : Nat) : Dict Bytes Bytes :=
  ((((Dict.empty.set (lit "dmi-format") (lit "dmi-pack-v1")).set (lit "dmi-pack-id") packId).set
    (lit "dmi-sha256") checksum).set (lit "dmi-record-count") (toText recordCount)).set
    (lit "dmi-created-at-ns") (toText createdAtNs)

/-! ### The reconciler -/

structure PackRef where
  packId : Bytes
  storeId : Bytes
  objectKey : Bytes
  objectBytes : Nat
  checksum : Bytes
  recordCount : Nat

def isHex64 (value : Bytes) : Bool :=
  value.length == 64 && value.all fun c => isDigit c || (0x61 ≤ c && c ≤ 0x66)

def packSuffix : Bytes := lit ".dmi-pack"

/-- `pack_id_of(key)`: empty if the key is not a pack. -/
def packIdOf (key : Bytes) : Bytes :=
  if packSuffix <:+ key then
    let name := (key.reverse.takeWhile (· ≠ 0x2F)).reverse
    name.take (name.length - packSuffix.length)
  else []

/-- `is_pack_id(value)`: a UUID in its canonical text. -/
def isPackId (value : Bytes) : Bool := (parseUuid value).any fun x => x.2 == value

/-- A metadata text, empty if there is none. -/
def ObjectHead.text (head : ObjectHead) (name : String) : Bytes :=
  (head.metadata.get? (lit name)).getD []

/-- What `reconcile` makes of a listed object and its HEAD. -/
def reconcileRef (storeId key : Bytes) (head : ObjectHead) : Option PackRef :=
  let packId := packIdOf key
  if packId = [] ∨ isPackId packId = false then none
  else
    let records := (stoull (head.text "dmi-record-count")).getD 0
    let checksum := head.text "dmi-sha256"
    if head.text "dmi-format" ≠ lit "dmi-pack-v1" ∨ head.text "dmi-pack-id" ≠ packId ∨
        isHex64 checksum = false ∨ records < 1 ∨ 1000000 < records then none
    else some ⟨packId, storeId, key, head.size, checksum, records⟩

/-- The metadata that `reconcile` asks for, beside the checksum. -/
structure Indexable (packId : Bytes) (head : ObjectHead) : Prop where
  format : head.text "dmi-format" = lit "dmi-pack-v1"
  packId : head.text "dmi-pack-id" = packId
  records : ∃ n ∈ stoull (head.text "dmi-record-count"), 1 ≤ n ∧ n ≤ 1000000

theorem isHex64_checksumOf (data : Bytes) : isHex64 (checksumOf data) = true := by
  have hchar : "0123456789abcdef".toList.all (fun c => isDigit (UInt8.ofNat c.toNat) ||
      (0x61 ≤ UInt8.ofNat c.toNat && UInt8.ofNat c.toNat ≤ 0x66)) = true := by decide
  rw [isHex64, checksumOf, lit, sha256Hex, String.toList_ofList, length_map, length_hexText,
    length_sha256, all_map, Bool.and_eq_true]
  exact ⟨rfl, all_eq_true.mpr fun c hc =>
    all_eq_true.mp hchar c (of_decide_eq_true (isHexChar_of_mem_hexText hc))⟩

/-- Beside a checksum that is well formed, `reconcile` asks for a canonical pack id in the key, and
for the metadata. -/
theorem reconcileRef_isSome {storeId key : Bytes} {head : ObjectHead}
    (hsum : isHex64 (head.text "dmi-sha256") = true) :
    (reconcileRef storeId key head).isSome ↔
      isPackId (packIdOf key) = true ∧ Indexable (packIdOf key) head := by
  have hnil : isPackId [] = false := by decide
  unfold reconcileRef
  by_cases hid : isPackId (packIdOf key) = true
  · have hne : packIdOf key ≠ [] := by
      intro h
      rw [h, hnil] at hid
      cases hid
    rw [if_neg (by simp [hne, hid])]
    constructor
    · intro h
      by_cases hbad : head.text "dmi-format" ≠ lit "dmi-pack-v1" ∨
          head.text "dmi-pack-id" ≠ packIdOf key ∨ isHex64 (head.text "dmi-sha256") = false ∨
          (stoull (head.text "dmi-record-count")).getD 0 < 1 ∨
          1000000 < (stoull (head.text "dmi-record-count")).getD 0
      · rw [if_pos hbad] at h
        cases h
      · simp only [not_or, not_not, Nat.not_lt] at hbad
        obtain ⟨hformat, hpack, -, hlow, hhigh⟩ := hbad
        refine ⟨hid, hformat, hpack, ?_⟩
        cases hn : stoull (head.text "dmi-record-count") with
        | none =>
          rw [hn] at hlow
          cases hlow
        | some n =>
          rw [hn] at hlow hhigh
          exact ⟨n, rfl, hlow, hhigh⟩
    · rintro ⟨-, hformat, hpack, n, hn, hlow, hhigh⟩
      have hn : stoull (head.text "dmi-record-count") = some n := hn
      have hrange : n ≠ 0 ∧ n ≤ 1000000 := ⟨Nat.one_le_iff_ne_zero.mp hlow, hhigh⟩
      simpa [hformat, hpack, hsum, hn] using hrange
  · rw [if_pos (.inr (Bool.eq_false_iff.mpr hid))]
    refine ⟨fun h => ?_, fun h => absurd h.1 hid⟩
    cases h

/-- The metadata that the uploader writes is what `reconcile` asks for if the pack id is the one of
the key and the number of records is in range. -/
theorem indexable_packMetadata {size : Nat} {packId checksum keyId : Bytes} {records created : Nat}
    (hfits : records < 2 ^ 64) :
    Indexable keyId ⟨size, packMetadata packId checksum records created⟩ ↔
      packId = keyId ∧ 1 ≤ records ∧ records ≤ 1000000 := by
  have hget : ∀ (metadata : Dict Bytes Bytes) name,
      (⟨size, metadata⟩ : ObjectHead).text name = (metadata.get? (lit name)).getD [] :=
    fun _ _ => rfl
  have hformat : (packMetadata packId checksum records created).get? (lit "dmi-format") =
      some (lit "dmi-pack-v1") := by
    rfl
  have hpack : (packMetadata packId checksum records created).get? (lit "dmi-pack-id") =
      some packId := by
    rfl
  have hrecords : (packMetadata packId checksum records created).get? (lit "dmi-record-count") =
      some (toText records) := by
    rfl
  constructor
  · rintro ⟨-, hid, n, hn, hrange⟩
    rw [hget, hrecords, Option.getD_some, stoull_toText hfits] at hn
    cases hn
    exact ⟨hid, hrange⟩
  · rintro ⟨hid, hrange⟩
    refine ⟨?_, ?_, records, ?_, hrange⟩
    · rw [hget, hformat, Option.getD_some]
    · rw [hget, hpack, Option.getD_some, hid]
    · rw [hget, hrecords, Option.getD_some, stoull_toText hfits]
      rfl

end Dmi.Objects
