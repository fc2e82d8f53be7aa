import Dmi.Capture.Pack.Uuid
import Dmi.Native.Encoding

/-!
# Pack identifiers

`ParseUuid` reads braces, 32 digits, and no hyphen or four of them anywhere.  On every text that
it accepts, `UUID(text)` gives the same sixteen bytes, and `str(UUID)` the same canonical text
(`parseUuid_spec`).  The converse fails: `UUID` takes more.
-/

namespace Dmi.Native

open List

open Capture (Uuid uuidText hexDigit? hexNumber isBrace Digits hexNumber_append)

/-! ### ASCII texts -/

theorem ascii_of_utf8 {s : String} (h : ∀ b ∈ utf8 s, b < 0x80) :
    ∀ c ∈ s.toList, c.toNat < 0x80 := by
  intro c hc
  have hbytes : ∀ b ∈ String.utf8EncodeChar c, b < 0x80 := fun b hb =>
    h b (mem_flatMap.mpr ⟨c, hc, hb⟩)
  rcases utf8EncodeChar_cases c with ⟨hlt, -⟩ | ⟨a, ha, b, hb, -, -, he⟩ |
    ⟨a, ha, b, hb, d, hd, -, -, he⟩ | ⟨a, ha, b, hb, d, hd, e, he', -, -, -, he⟩
  · exact hlt
  · exact absurd (hbytes _ (he ▸ mem_cons_self)) (lead2 a ha).1
  · exact absurd (hbytes _ (he ▸ mem_cons_self)) (lead3 a ha).1
  · exact absurd (hbytes _ (he ▸ mem_cons_self)) (lead4 a ha).1

/-- The byte of an ASCII character. -/
def byte (c : Char) : UInt8 := UInt8.ofNat c.toNat

theorem toNat_byte {c : Char} (h : c.toNat < 0x80) : (byte c).toNat = c.toNat :=
  UInt8.toNat_ofNat_of_lt' (by show c.toNat < 256; omega)

theorem byte_eq {c d : Char} (hc : c.toNat < 0x80) (hd : d.toNat < 0x80) :
    byte c = byte d ↔ c = d := by
  rw [← UInt8.toNat_inj, toNat_byte hc, toNat_byte hd, Char.toNat_inj]

theorem nibble?_byte {c : Char} (h : c.toNat < 0x80) : nibble? (byte c) = hexDigit? c := by
  have hascii : ∀ n < 0x80, nibble? (UInt8.ofNat n) = hexDigit? (Char.ofNat n) := by
    decide +kernel
  rw [byte, hascii _ h, Char.ofNat_toNat]

/-! ### Pairs of digits -/

theorem nibblePairs_append : ∀ (ds : List Nat) (hi lo : Nat), ds.length % 2 = 0 →
    nibblePairs (ds ++ [hi, lo]) = nibblePairs ds ++ [UInt8.ofNat (hi * 16 + lo)]
  | [], _, _, _ => rfl
  | [_], _, _, h => by cases h
  | a :: b :: ds, hi, lo, h => by
    have hlen : ds.length % 2 = 0 := by
      simp only [length_cons] at h
      omega
    rw [cons_append, cons_append, nibblePairs, nibblePairs,
      nibblePairs_append ds hi lo hlen, cons_append]

/-- The pairs are the bytes of the number, most significant first. -/
theorem nibblePairs_eq (k : Nat) {digits : List Nat} (hlen : digits.length = 2 * k)
    (hlt : ∀ d ∈ digits, d < 16) :
    nibblePairs digits = (Struct.leBytes k (hexNumber digits)).reverse := by
  induction k generalizing digits with
  | zero =>
    rw [length_eq_zero_iff.mp hlen]
    rfl
  | succ k ih =>
    obtain ⟨ds, hi, lo, rfl⟩ : ∃ ds hi lo, digits = ds ++ [hi, lo] := by
      have hdrop : (digits.drop (2 * k)).length = 2 := by
        rw [length_drop]
        omega
      obtain ⟨hi, lo, h⟩ := length_eq_two.mp hdrop
      exact ⟨digits.take (2 * k), hi, lo, by rw [← h, take_append_drop]⟩
    have hds : ds.length = 2 * k := by
      rw [length_append] at hlen
      simp only [length_cons, length_nil] at hlen
      omega
    have hhi : hi < 16 := hlt hi (by simp)
    have hlo : lo < 16 := hlt lo (by simp)
    have hnumber : hexNumber (ds ++ [hi, lo]) = hexNumber ds * 256 + (hi * 16 + lo) := by
      rw [hexNumber_append]
      simp only [foldl_cons, foldl_nil]
      omega
    have hlow : UInt8.ofNat (hexNumber ds * 256 + (hi * 16 + lo)) = UInt8.ofNat (hi * 16 + lo) := by
      rw [← UInt8.toNat_inj, UInt8.toNat_ofNat', UInt8.toNat_ofNat']
      omega
    have hhigh : (hexNumber ds * 256 + (hi * 16 + lo)) / 256 = hexNumber ds := by omega
    rw [nibblePairs_append ds hi lo (by omega), ih hds fun d hd => hlt d (by simp [hd]), hnumber,
      Struct.leBytes, reverse_cons, hlow, hhigh]

theorem hexText_nibblePairs : ∀ {digits : List Nat}, digits.length % 2 = 0 →
    (∀ d ∈ digits, d < 16) → hexText (nibblePairs digits) = digits.map hexChar
  | [], _, _ => rfl
  | [_], h, _ => by cases h
  | hi :: lo :: digits, h, hlt => by
    have hhi : hi < 16 := hlt hi (by simp)
    have hlo : lo < 16 := hlt lo (by simp)
    have hbyte : (UInt8.ofNat (hi * 16 + lo)).toNat = hi * 16 + lo :=
      UInt8.toNat_ofNat_of_lt' (by show hi * 16 + lo < 256; omega)
    have hlen : digits.length % 2 = 0 := by
      simp only [length_cons] at h
      omega
    have htail := hexText_nibblePairs hlen fun d hd => hlt d (by simp [hd])
    rw [nibblePairs, hexText, flatMap_cons, ← hexText, htail, hbyte,
      show (hi * 16 + lo) / 16 = hi by omega, show (hi * 16 + lo) % 16 = lo by omega]
    rfl

/-! ### Agreement -/

theorem hexText_ascii (b : Bytes) : (hexText b).all (·.toNat < 0x80) = true := by
  have hchars : "0123456789abcdef".toList.all (·.toNat < 0x80) = true := by decide
  refine all_eq_true.mpr fun c hc => all_eq_true.mp hchars c ?_
  exact of_decide_eq_true (isHexChar_of_mem_hexText hc)

theorem uuidText_ascii (b : Bytes) : (uuidText b).toList.all (·.toNat < 0x80) = true := by
  have hpart : ∀ l : List Char, l ⊆ hexText b → l.all (·.toNat < 0x80) = true := fun l hl =>
    all_eq_true.mpr fun c hc => all_eq_true.mp (hexText_ascii b) c (hl hc)
  have htake := fun i j : Nat => hpart (((hexText b).drop i).take j)
    (Subset.trans (take_subset _ _) (drop_subset _ _))
  simp only [uuidText, String.toList_ofList, all_append, all_cons, Bool.and_eq_true]
  exact ⟨hpart _ (take_subset _ _), rfl, htake 8 4, rfl, htake 12 4, rfl, htake 16 4, rfl,
    hpart _ (drop_subset _ _)⟩

theorem lit_uuidText (b : Bytes) : lit (uuidText b) = canonical (hexText b) := by
  rw [lit, uuidText, String.toList_ofList]
  rfl

theorem uuidBody_spec (text : Bytes) : ∃ front back, text = front ++ (uuidBody text ++ back) ∧
    (∀ b ∈ front, b = 0x7B) ∧ ∀ b ∈ back, b = 0x7D := by
  have hback : ∀ body : Bytes, ∃ back,
      body = (if body.getLast? = some 0x7D then body.dropLast else body) ++ back ∧
        ∀ b ∈ back, b = 0x7D := by
    intro body
    split
    next h =>
      exact ⟨[0x7D], (dropLast_append_getLast? _ h).symm, by simp⟩
    · exact ⟨[], (append_nil body).symm, by simp⟩
  unfold uuidBody
  by_cases h : text.head? = some 0x7B
  · obtain ⟨back, hbody, hb⟩ := hback (text.drop 1)
    refine ⟨[0x7B], back, ?_, by simp, hb⟩
    rw [if_pos h, ← hbody]
    cases text with
    | nil => cases h
    | cons b text =>
      cases h
      rfl
  · obtain ⟨back, hbody, hb⟩ := hback text
    refine ⟨[], back, ?_, by simp, hb⟩
    rw [if_neg h, ← hbody]
    rfl

theorem parseUuid_eq_some {text bytes id : Bytes} (h : parseUuid text = some (bytes, id)) :
    ∃ digits, List.Forall₂ (fun b d => nibble? b = some d) ((uuidBody text).filter (· ≠ 0x2D))
      digits ∧ digits.length = 32 ∧ bytes = nibblePairs digits ∧
        id = canonical (digits.map hexChar) := by
  simp only [parseUuid] at h
  split at h
  next => cases h
  next digits hdigits =>
    split_ifs at h with hlen hhyphens
    cases h
    exact ⟨digits, mapM_eq_some.mp hdigits, not_not.mp hlen, rfl, rfl⟩

theorem nibble?_lt {b : UInt8} {d : Nat} (h : nibble? b = some d) : b < 0x80 ∧ d < 16 := by
  have hall : ∀ n < 256, ∀ d ∈ nibble? (UInt8.ofNat n), n < 0x80 ∧ d < 16 := by decide +kernel
  have hb := hall b.toNat b.toNat_lt d (by rw [UInt8.ofNat_toNat]; exact h)
  exact ⟨UInt8.lt_iff_toNat_lt.mpr hb.1, hb.2⟩

/-- **The two readings of a pack identifier agree** on what `ParseUuid` accepts. -/
theorem parseUuid_spec (unicode : Char → Char) {text : String} {bytes id : Bytes}
    (h : parseUuid (utf8 text) = some (bytes, id)) :
    ∃ u, Uuid.ofText unicode text = some u ∧ u.bytes = bytes ∧ id = utf8 (uuidText bytes) := by
  obtain ⟨digits, hdigits, hlen, rfl, rfl⟩ := parseUuid_eq_some h
  obtain ⟨front, back, htext, hfront, hback⟩ := uuidBody_spec (utf8 text)
  generalize uuidBody (utf8 text) = body at hdigits htext
  have hbytes : ∀ b ∈ utf8 text, b < 0x80 := by
    intro b hb
    rw [htext, mem_append, mem_append] at hb
    rcases hb with hb | hb | hb
    · rw [hfront b hb]
      decide
    · by_cases hdash : b = 0x2D
      · rw [hdash]
        decide
      · obtain ⟨d, -, hd⟩ := forall₂_exists_right hdigits b
          (mem_filter.mpr ⟨hb, decide_eq_true hdash⟩)
        exact (nibble?_lt hd).1
    · rw [hback b hb]
      decide
  have hascii := ascii_of_utf8 hbytes
  have hchars : utf8 text = text.toList.map byte :=
    (lit_eq_utf8 (all_eq_true.mpr fun c hc => decide_eq_true (hascii c hc))).symm
  rw [hchars] at htext
  obtain ⟨F, R, hFR, rfl, hR⟩ := map_eq_append_iff.mp htext
  obtain ⟨M, B, rfl, rfl, rfl⟩ := map_eq_append_iff.mp hR
  rw [hFR] at hascii
  have hM : ∀ c ∈ M, c.toNat < 0x80 := fun c hc => hascii c (by simp [hc])
  -- the same filter, on characters
  have hfilter : (M.map byte).filter (· ≠ 0x2D) = (M.filter (· ≠ '-')).map byte := by
    rw [filter_map]
    congr 1
    refine filter_congr fun c hc => ?_
    rw [Function.comp_apply, decide_eq_decide]
    exact not_congr (byte_eq (hM c hc) (d := '-') (by decide))
  have hdigits' : Digits (M.filter (· ≠ '-')) digits := by
    rw [hfilter, forall₂_map_left_iff] at hdigits
    have hboth := (forall₂_and_left _ _).mpr
      ⟨fun c hc => hM c (mem_of_mem_filter hc), hdigits⟩
    exact hboth.imp fun c d h => nibble?_byte h.1 ▸ h.2
  have hlt : ∀ d ∈ digits, d < 16 := by
    intro d hd
    obtain ⟨b, -, hb⟩ := forall₂_exists_right hdigits.flip d hd
    exact (nibble?_lt hb).2
  have hF : ∀ c ∈ F, isBrace c = true := by
    intro c hc
    have heq := hfront (byte c) (mem_map_of_mem hc)
    rw [(byte_eq (hascii c (by simp [hc])) (d := '\x7b') (by decide)).mp heq]
    rfl
  have hB : ∀ c ∈ B, isBrace c = true := by
    intro c hc
    have heq := hback (byte c) (mem_map_of_mem hc)
    rw [(byte_eq (hascii c (by simp [hc])) (d := '\x7d') (by decide)).mp heq]
    rfl
  obtain ⟨u, hu, hbytes'⟩ := Uuid.ofText_digits unicode hFR hF hB hdigits' hlen
  refine ⟨u, hu, ?_, ?_⟩
  · rw [hbytes', nibblePairs_eq 16 hlen hlt]
  · rw [← lit_eq_utf8 (uuidText_ascii _), lit_uuidText, hexText_nibblePairs (by omega) hlt]

end Dmi.Native
