import Dmi.Capture.Key
import Dmi.Native.Encoding

/-!
# Object keys, natively

`ObjectKeyFor` is the second writer of object keys, on bytes: it percent-escapes by its own table,
compares the length and the beginning of the escaped name, and hashes the name itself.  It writes
the bytes of the reference's key (`objectKeyFor_eq`).  The segments of a key can be read back from
its directory, so two packs in one directory have one tenant and one session.
-/

namespace Dmi.Native

open List
open Capture (ReadyPack keyTail quoted quoteByte digestPrefix splitSlash splitSlash_append
  slash_not_mem_keyComponent)

/-- A digit of `kHex`. -/
def upperHex (d : Nat) : UInt8 := if d < 10 then UInt8.ofNat (0x30 + d) else UInt8.ofNat (0x37 + d)

/-- `AppendQuotedByte`. -/
def appendQuotedByte (c : UInt8) : Bytes := [0x25, upperHex (c.toNat / 16), upperHex (c.toNat % 16)]

/-- `IsKeySafe`. -/
def isKeySafe (c : UInt8) : Bool :=
  (0x41 ≤ c && c ≤ 0x5A) || (0x61 ≤ c && c ≤ 0x7A) || (0x30 ≤ c && c ≤ 0x39) ||
    c = 0x2D || c = 0x5F || c = 0x2E || c = 0x3D

/-- One turn of the loop of `KeyComponent`. -/
def encodeByte (c : UInt8) : Bytes :=
  if isKeySafe c then [c] else if c = 0x7E then lit "%7E" else appendQuotedByte c

/-- `KeyComponent`. -/
def keyComponent (value : Bytes) : Bytes :=
  let encoded := value.flatMap encodeByte
  if encoded.length ≤ 160 ∧ encoded.take 7 ≠ lit "sha256-" then encoded
  else lit "sha256-" ++ lit (sha256Hex value)

/-- `DateSegment`: `gmtime_r` and `strftime` give the civil date in UTC. -/
def dateSegment (capturedAtNs : UInt64) : Bytes :=
  utf8 (String.ofList (Capture.dateText (capturedAtNs.toNat / 1000000000 / 86400)))

/-- `ObjectKeyFor`. -/
def objectKeyFor (tenantId sessionId : Bytes) (producerRank : Nat) (capturedAtNs : UInt64)
    (packId : Bytes) : Bytes :=
  lit "v1/tenant=" ++ keyComponent tenantId ++ lit "/date=" ++ dateSegment capturedAtNs ++
    lit "/session=" ++ keyComponent sessionId ++ lit "/rank=" ++ uintValue producerRank ++
    lit "/" ++ packId ++ lit ".dmi-pack"

/-! ### The same bytes -/

/-- The bytes of the reference's text. -/
def spelled (l : List Char) : Bytes := l.flatMap String.utf8EncodeChar

theorem encodeByte_eq (c : UInt8) :
    spelled (quoteByte c) = encodeByte c ∧ (encodeByte c).map (fun b => Char.ofNat b.toNat) =
      quoteByte c := by
  have hall : ∀ n < 256, spelled (quoteByte (UInt8.ofNat n)) = encodeByte (UInt8.ofNat n) ∧
      (encodeByte (UInt8.ofNat n)).map (fun b => Char.ofNat b.toNat) =
        quoteByte (UInt8.ofNat n) := by
    decide +kernel
  have h := hall c.toNat c.toNat_lt
  rwa [UInt8.ofNat_toNat] at h

theorem keyComponent_eq (value : String) :
    spelled (Capture.keyComponent value) = keyComponent (utf8 value) := by
  have hspelled : spelled (quoted value) = (utf8 value).flatMap encodeByte := by
    rw [spelled, quoted, flatMap_assoc]
    exact flatMap_congr fun c _ => (encodeByte_eq c).1
  have hback : ((utf8 value).flatMap encodeByte).map (fun b => Char.ofNat b.toNat) =
      quoted value := by
    rw [map_flatMap, quoted]
    exact flatMap_congr fun c _ => (encodeByte_eq c).2
  have hstarts : digestPrefix <+: quoted value ↔
      ((utf8 value).flatMap encodeByte).take 7 = lit "sha256-" := by
    constructor
    · rintro ⟨r, hr⟩
      rw [← hspelled, ← hr, spelled, flatMap_append]
      exact take_left' rfl
    · intro h
      have hmap := congrArg (map fun b => Char.ofNat b.toNat) h
      rw [map_take, hback] at hmap
      exact prefix_iff_eq_take.mpr hmap.symm
  have hlength : (quoted value).length = ((utf8 value).flatMap encodeByte).length := by
    rw [← hback, length_map]
  rw [Capture.keyComponent, keyComponent]
  by_cases h : (quoted value).length ≤ 160 ∧ ¬ digestPrefix <+: quoted value
  · rw [if_pos h, if_pos ⟨hlength ▸ h.1, fun htake => h.2 (hstarts.mpr htake)⟩, hspelled]
  · rw [if_neg h, if_neg fun h' => h ⟨hlength ▸ h'.1, fun hp => h'.2 (hstarts.mp hp)⟩, spelled,
      flatMap_append]
    have hascii : (sha256Hex (utf8 value)).toList.all (·.toNat < 0x80) = true := by
      have hhex : "0123456789abcdef".toList.all (·.toNat < 0x80) = true := by decide
      rw [sha256Hex, String.toList_ofList]
      refine all_eq_true.mpr fun c hc => all_eq_true.mp hhex c ?_
      exact of_decide_eq_true (isHexChar_of_mem_hexText hc)
    rw [lit_eq_utf8 hascii]
    exact congrArg (· ++ _) (by decide)

theorem uintValue_eq (n : Nat) : uintValue n = spelled (Nat.toDigits 10 n) := by
  have hascii : (String.ofList (Nat.toDigits 10 n)).toList.all (·.toNat < 0x80) = true := by
    rw [String.toList_ofList]
    refine all_eq_true.mpr fun c hc => decide_eq_true ?_
    have hdigit := Nat.isDigit_of_mem_toDigits (by decide) (by decide) hc
    simp only [Char.isDigit, Bool.and_eq_true, decide_eq_true_eq, ge_iff_le,
      UInt32.le_iff_toNat_le] at hdigit
    exact Nat.lt_of_le_of_lt hdigit.2 (by decide)
  have h := lit_eq_utf8 hascii
  rw [lit, utf8, String.toList_ofList] at h
  rw [uintValue, Json.asciiBytes, Json.decimal, map_map]
  exact h

theorem dateSegment_eq (capturedAtNs : UInt64) : dateSegment capturedAtNs =
    spelled (Capture.dateText (capturedAtNs.toNat / 1000000000 / 86400)) := by
  rw [dateSegment, utf8, String.toList_ofList, spelled]

theorem spelled_names : spelled "v1".toList ++ (lit "/" ++ spelled "tenant=".toList) =
    lit "v1/tenant=" ∧ lit "/" ++ spelled "date=".toList = lit "/date=" ∧
    lit "/" ++ spelled "session=".toList = lit "/session=" ∧
    lit "/" ++ spelled "rank=".toList = lit "/rank=" ∧
    spelled ".dmi-pack".toList = lit ".dmi-pack" := by
  decide

theorem keyTail_eq (ready : ReadyPack) : keyTail ready = "date=".toList ++
    Capture.dateText (ready.firstMetadata.capturedAtNs.toNat / 1000000000 / 86400) ++ '/' ::
    ("session=".toList ++ Capture.keyComponent ready.firstMetadata.sessionId.val ++ '/' ::
      ("rank=".toList ++ Nat.toDigits 10 ready.firstMetadata.producerRank.toNat ++ '/' ::
        (ready.pack.packId.toList ++ ".dmi-pack".toList))) := by
  have hlit : "/session=".toList = '/' :: "session=".toList ∧
      "/rank=".toList = '/' :: "rank=".toList := by decide
  have h : keyTail ready = "date=".toList ++
      Capture.dateText (ready.firstMetadata.capturedAtNs.toNat / 1000000000 / 86400) ++
      "/session=".toList ++ Capture.keyComponent ready.firstMetadata.sessionId.val ++
      "/rank=".toList ++ Nat.toDigits 10 ready.firstMetadata.producerRank.toNat ++
      '/' :: (ready.pack.packId.toList ++ ".dmi-pack".toList) := rfl
  rw [h, hlit.1, hlit.2]
  simp only [append_assoc, cons_append]

theorem objectKeyFor_eq (ready : ReadyPack) :
    objectKeyFor (utf8 ready.firstMetadata.tenantId.val) (utf8 ready.firstMetadata.sessionId.val)
        ready.firstMetadata.producerRank.toNat ready.firstMetadata.capturedAtNs
        (utf8 ready.pack.packId) = utf8 (Capture.objectKeyFor ready) := by
  have hkey : (Capture.objectKeyFor ready).toList = "v1".toList ++ '/' ::
      ("tenant=".toList ++ Capture.keyComponent ready.firstMetadata.tenantId.val ++
        '/' :: keyTail ready) := String.toList_ofList
  have hpack : utf8 ready.pack.packId = spelled ready.pack.packId.toList := rfl
  have hslash : ∀ l, spelled ('/' :: l) = lit "/" ++ spelled l := fun _ => rfl
  have happend : ∀ l r, spelled (l ++ r) = spelled l ++ spelled r := fun _ _ => flatMap_append
  obtain ⟨h1, h2, h3, h4, h5⟩ := spelled_names
  have hutf8 : utf8 (Capture.objectKeyFor ready) =
      spelled (Capture.objectKeyFor ready).toList := rfl
  refine Eq.trans ?_ ((congrArg spelled hkey.symm).trans hutf8.symm)
  rw [keyTail_eq, objectKeyFor, dateSegment_eq, uintValue_eq, hpack, ← keyComponent_eq,
    ← keyComponent_eq, ← h1, ← h2, ← h3, ← h4, ← h5]
  simp only [happend, hslash]
  simp only [append_assoc]

/-! ### Directories -/

/-- The directory of a key: its segments without the last. -/
def keyDirectory (key : String) : List (List Char) := (splitSlash key.toList).dropLast

theorem splitSlash_ne_nil (l : List Char) : splitSlash l ≠ [] := by
  fun_cases splitSlash l <;> exact cons_ne_nil _ _

theorem keyDirectory_objectKeyFor (ready : ReadyPack) : ∃ date rest,
    keyDirectory (Capture.objectKeyFor ready) = "v1".toList ::
      ("tenant=".toList ++ Capture.keyComponent ready.firstMetadata.tenantId.val) :: date ::
      ("session=".toList ++ Capture.keyComponent ready.firstMetadata.sessionId.val) :: rest := by
  have hkey : (Capture.objectKeyFor ready).toList = "v1".toList ++ '/' ::
      ("tenant=".toList ++ Capture.keyComponent ready.firstMetadata.tenantId.val ++
        '/' :: keyTail ready) := String.toList_ofList
  obtain ⟨date, hdate, rest, htail⟩ : ∃ date, '/' ∉ date ∧ ∃ rest, keyTail ready = date ++ '/' ::
      ("session=".toList ++ Capture.keyComponent ready.firstMetadata.sessionId.val ++
        '/' :: rest) := by
    refine ⟨_, fun h => ?_, _, keyTail_eq ready⟩
    exact (mem_append.mp h).elim (by decide) (Capture.slash_not_mem_dateText _)
  have hsegment : ∀ (name value : String), '/' ∉ name.toList →
      '/' ∉ name.toList ++ Capture.keyComponent value :=
    fun _ value hname h => (mem_append.mp h).elim hname (slash_not_mem_keyComponent value)
  rw [keyDirectory, hkey, splitSlash_append (by decide),
    splitSlash_append (hsegment _ _ (by decide)), htail, splitSlash_append hdate,
    splitSlash_append (hsegment _ _ (by decide))]
  iterate 3 rw [dropLast_cons_of_ne_nil (cons_ne_nil _ _)]
  rw [dropLast_cons_of_ne_nil (splitSlash_ne_nil _)]
  exact ⟨_, _, rfl⟩

/-- The digests of two names do not collide. -/
def NoCollision (s t : String) : Prop := sha256 (utf8 s) = sha256 (utf8 t) → utf8 s = utf8 t

theorem keyComponent_injective {s t : String} (hcollision : NoCollision s t)
    (h : Capture.keyComponent s = Capture.keyComponent t) : s = t := by
  have ht := Capture.segmentBelongsTo_keyComponent t
  rw [← h] at ht
  exact Capture.segmentBelongsTo_unique hcollision (Capture.segmentBelongsTo_keyComponent s) ht

/-- **Both write the same key**, and two packs in one directory have one tenant and one session,
as long as the digests of their names do not collide. -/
theorem object_keys_agree :
    (∀ ready : ReadyPack, objectKeyFor (utf8 ready.firstMetadata.tenantId.val)
      (utf8 ready.firstMetadata.sessionId.val) ready.firstMetadata.producerRank.toNat
      ready.firstMetadata.capturedAtNs (utf8 ready.pack.packId) =
        utf8 (Capture.objectKeyFor ready)) ∧
    (∀ p q : ReadyPack,
      NoCollision p.firstMetadata.tenantId.val q.firstMetadata.tenantId.val →
      NoCollision p.firstMetadata.sessionId.val q.firstMetadata.sessionId.val →
      keyDirectory (Capture.objectKeyFor p) = keyDirectory (Capture.objectKeyFor q) →
      p.firstMetadata.tenantId = q.firstMetadata.tenantId ∧
        p.firstMetadata.sessionId = q.firstMetadata.sessionId) := by
  refine ⟨objectKeyFor_eq, fun p q htenant hsession h => ?_⟩
  obtain ⟨_, _, hp⟩ := keyDirectory_objectKeyFor p
  obtain ⟨_, _, hq⟩ := keyDirectory_objectKeyFor q
  rw [hp, hq] at h
  obtain ⟨-, h⟩ := List.cons.inj h
  obtain ⟨ht, h⟩ := List.cons.inj h
  obtain ⟨-, h⟩ := List.cons.inj h
  obtain ⟨hs, -⟩ := List.cons.inj h
  exact ⟨Capture.Text.ext (keyComponent_injective htenant (append_cancel_left ht)),
    Capture.Text.ext (keyComponent_injective hsession (append_cancel_left hs))⟩

/-- A pack whose tenant has to be quoted, sealed for two reasons. -/
theorem object_keys_agree_sample : ∃ p q : ReadyPack, p.firstMetadata.tenantId.val = "a/b" ∧
    p.reason ≠ q.reason ∧
    keyDirectory (Capture.objectKeyFor p) = keyDirectory (Capture.objectKeyFor q) ∧
    p.firstMetadata.tenantId = q.firstMetadata.tenantId := by
  let record := Capture.sampleRecord ⟨"c", by decide, by decide⟩ ⟨"a/b", by decide, by decide⟩ 3
    (by decide)
  let p (reason) : ReadyPack := ⟨⟨"p", 5, [], 1, 0, ""⟩, record.metadata, reason⟩
  have h : keyDirectory (Capture.objectKeyFor (p .manual)) =
      keyDirectory (Capture.objectKeyFor (p .linger)) := rfl
  exact ⟨p .manual, p .linger, rfl, nofun, h,
    (object_keys_agree.2 _ _ (fun _ => rfl) (fun _ => rfl) h).1⟩

end Dmi.Native
