import Dmi.Objects.Store

/-!
# The names of ready files

A staged pack is a file `<pack_id>.<created>.<records>.<checksum>.dmi-pack.ready`; its name is all
that the spool knows of the intent it was staged with. `parseReadyName` reads a name that
`readyName` wrote (`parseReadyName_readyName`), and every name that it reads passes the test by
which a stage looks for files of its pack (`sameId_of_parseReadyName`).
-/

namespace Dmi.Spooling

open List

open Native (lit)
open Objects (toText toText_digits isDigit isHex64 packSuffix)

/-! ### Texts -/

/-- What is before the last separator, and after it. -/
def splitLast (sep : UInt8) (s : Bytes) : Option (Bytes × Bytes) :=
  match s.reverse.dropWhile (· ≠ sep) with
  | [] => none
  | _ :: before => some (before.reverse, (s.reverse.takeWhile (· ≠ sep)).reverse)

/-- A hexadecimal digit, in either case. -/
def isHex (c : UInt8) : Bool :=
  isDigit c || (0x61 ≤ c && c ≤ 0x66) || (0x41 ≤ c && c ≤ 0x46)

/-- `IsUuid`: the layout of 8, 4, 4, 4 and 12 digits. -/
def isUuid (s : Bytes) : Bool :=
  s.length == 36 && s.zipIdx.all fun (c, i) =>
    if i = 8 ∨ i = 13 ∨ i = 18 ∨ i = 23 then c == 0x2D else isHex c

def allDigits (s : Bytes) : Bool := s ≠ [] && s.all isDigit

/-- `strtoull` of digits, which stops at the largest value. -/
def strtoull (digits : Bytes) : Nat :=
  min (Json.digitsValue (digits.map UInt8.toNat)) (2 ^ 64 - 1)

def isLetter (c : UInt8) : Bool := (0x41 ≤ c && c ≤ 0x5A) || (0x61 ≤ c && c ≤ 0x7A)

/-- `IsKeyComponent`. -/
def isKeyComponent : Bytes → Bool
  | [] => false
  | first :: rest => (isLetter first || isDigit first) && rest.all fun c =>
      isLetter c || isDigit c || c ∈ [0x2E, 0x5F, 0x3D, 0x25, 0x2D]

/-- `SplitKey`: the directory of a key that ends in the pack's own name. -/
def splitKey (objectKey packId : Bytes) : Option Bytes :=
  let parent := (splitLast 0x2F objectKey).map Prod.fst
  let leaf := ((splitLast 0x2F objectKey).map Prod.snd).getD objectKey
  if leaf = packId ++ packSuffix ∧ 0x5C ∉ objectKey ∧
      (objectKey.splitOn 0x2F).all isKeyComponent = true then
    some (parent.getD [])
  else none

/-! ### Ready names -/

def readySuffix : Bytes := lit ".dmi-pack.ready"

/-- `ReadyName`. -/
def readyName (packId : Bytes) (created records : UInt64) (checksum : Bytes) : Bytes :=
  (packId ++ 0x2E :: toText created.toNat ++ 0x2E :: toText records.toNat ++ 0x2E :: checksum) ++
    readySuffix

/-- What a pack is staged as. -/
structure Intent where
  packId : Bytes
  created : Nat
  records : Nat
  checksum : Bytes
  deriving DecidableEq

/-- `ParseReadyName`. The parts are split off from the right. -/
def parseReadyName (name : Bytes) : Option Intent :=
  if name.length ≤ readySuffix.length ∨ ¬ readySuffix <:+ name then none
  else
    (splitLast 0x2E (name.take (name.length - readySuffix.length))).bind fun checksum =>
      (splitLast 0x2E checksum.1).bind fun records =>
        (splitLast 0x2E records.1).bind fun created =>
          if isUuid created.1 ∧ isHex64 checksum.2 ∧ allDigits created.2 ∧ allDigits records.2 then
            some ⟨created.1, strtoull created.2, strtoull records.2, checksum.2⟩
          else none

/-- The name is that of a ready file of the pack, by the test of `Stage`. -/
def sameId (packId name : Bytes) : Bool :=
  decide (packId ++ [0x2E] <+: name ∧ packId.length + 1 < name.length ∧ readySuffix <:+ name)

/-! ### Separators -/

theorem splitLast_append {sep : UInt8} {s t : Bytes} (ht : sep ∉ t) :
    splitLast sep (s ++ sep :: t) = some (s, t) := by
  have hrev : (s ++ sep :: t).reverse = t.reverse ++ sep :: s.reverse := by simp
  have hpos : ∀ c ∈ t.reverse, decide (c ≠ sep) = true := by
    intro c hc
    refine decide_eq_true fun h => ht ?_
    rw [← h]
    exact mem_reverse.mp hc
  rw [splitLast, hrev, dropWhile_append_of_pos hpos, takeWhile_append_of_pos hpos]
  simp

theorem eq_of_splitLast {sep : UInt8} {s a b : Bytes} (h : splitLast sep s = some (a, b)) :
    s = a ++ sep :: b := by
  have hsplit := takeWhile_append_dropWhile (p := (· ≠ sep)) (l := s.reverse)
  unfold splitLast at h
  cases hdrop : s.reverse.dropWhile (· ≠ sep) with
  | nil =>
    rw [hdrop] at h
    cases h
  | cons c before =>
    have hc : c = sep := by
      have hhead := head?_dropWhile_not (· ≠ sep) s.reverse
      rw [hdrop] at hhead
      simpa using hhead
    rw [hdrop] at h
    cases h
    rw [hdrop] at hsplit
    calc s = (s.reverse.takeWhile (· ≠ sep) ++ c :: before).reverse := by
          rw [hsplit, reverse_reverse]
      _ = before.reverse ++ sep :: (s.reverse.takeWhile (· ≠ sep)).reverse := by
          rw [hc]
          simp

theorem dot_notMem_of_all {s : Bytes} {p : UInt8 → Bool} (hp : p 0x2E = false)
    (h : s.all p = true) : 0x2E ∉ s := by
  intro hmem
  have hdot := all_eq_true.mp h _ hmem
  rw [hp] at hdot
  cases hdot

theorem all_isDigit_toText (n : Nat) : (toText n).all isDigit = true :=
  all_eq_true.mpr fun c hc => ((toText_digits n).2 c hc).1

theorem dot_notMem_toText (n : Nat) : 0x2E ∉ toText n :=
  dot_notMem_of_all (by decide) (all_isDigit_toText n)

theorem dot_notMem_of_isHex64 {s : Bytes} (h : isHex64 s = true) : 0x2E ∉ s := by
  rw [isHex64, Bool.and_eq_true] at h
  exact dot_notMem_of_all (by decide) h.2

theorem allDigits_toText (n : Nat) : allDigits (toText n) = true := by
  have hne : toText n ≠ [] := fun h =>
    Json.decimal_ne_nil n (by rw [← (toText_digits n).1, h]; rfl)
  rw [allDigits, Bool.and_eq_true]
  exact ⟨decide_eq_true hne, all_isDigit_toText n⟩

theorem strtoull_toText (n : UInt64) : strtoull (toText n.toNat) = n.toNat := by
  have hn := n.toNat_lt
  rw [strtoull, (toText_digits n.toNat).1, Json.digitsValue_decimal]
  omega

/-! ### Reading a name -/

/-- **A ready name says what it was written for.** -/
theorem parseReadyName_readyName {packId checksum : Bytes} (hid : isUuid packId = true)
    (hsum : isHex64 checksum = true) (created records : UInt64) :
    parseReadyName (readyName packId created records checksum) =
      some ⟨packId, created.toNat, records.toNat, checksum⟩ := by
  have hshort : ¬ (readyName packId created records checksum).length ≤ readySuffix.length := by
    simp only [readyName, length_append, length_cons]
    omega
  have hsuffix : readySuffix <:+ readyName packId created records checksum :=
    suffix_append _ _
  have hstem : (readyName packId created records checksum).take
      ((readyName packId created records checksum).length - readySuffix.length) =
      packId ++ 0x2E :: toText created.toNat ++ 0x2E :: toText records.toNat ++
        0x2E :: checksum := by
    rw [readyName, length_append, Nat.add_sub_cancel, take_left]
  rw [parseReadyName, if_neg (not_or.mpr ⟨hshort, not_not.mpr hsuffix⟩), hstem,
    splitLast_append (dot_notMem_of_isHex64 hsum), Option.bind_some,
    splitLast_append (dot_notMem_toText _), Option.bind_some,
    splitLast_append (dot_notMem_toText _), Option.bind_some,
    if_pos ⟨hid, hsum, allDigits_toText _, allDigits_toText _⟩, strtoull_toText, strtoull_toText]

/-- **A file whose name can be read is found by a stage of its pack.** -/
theorem sameId_of_parseReadyName {name : Bytes} {intent : Intent}
    (h : parseReadyName name = some intent) : sameId intent.packId name = true := by
  unfold parseReadyName at h
  by_cases hbad : name.length ≤ readySuffix.length ∨ ¬ readySuffix <:+ name
  · rw [if_pos hbad] at h
    cases h
  rw [if_neg hbad, Option.bind_eq_some_iff] at h
  obtain ⟨hlong, hsuffix⟩ := not_or.mp hbad
  rw [not_not] at hsuffix
  obtain ⟨⟨rest, checksum⟩, hstem, h⟩ := h
  obtain ⟨⟨rest', records⟩, hrest, h⟩ := Option.bind_eq_some_iff.mp h
  obtain ⟨⟨id, created⟩, hrest', h⟩ := Option.bind_eq_some_iff.mp h
  have hid : id = intent.packId := by
    by_cases hok : isUuid id ∧ isHex64 checksum ∧ allDigits created ∧ allDigits records
    · rw [if_pos hok] at h
      cases h
      rfl
    · rw [if_neg hok] at h
      cases h
  have hrecords : rest = rest' ++ 0x2E :: records := eq_of_splitLast hrest
  have hcreated : rest' = id ++ 0x2E :: created := eq_of_splitLast hrest'
  have hstem' := eq_of_splitLast hstem
  rw [hrecords, hcreated] at hstem'
  -- The name is the id, a dot and more.
  have hname : name = id ++ [0x2E] ++ (created ++ 0x2E :: records ++ 0x2E :: checksum ++
      name.drop (name.length - readySuffix.length)) := by
    calc name = name.take (name.length - readySuffix.length) ++
            name.drop (name.length - readySuffix.length) := (take_append_drop _ _).symm
      _ = _ := by
        rw [hstem']
        simp
  rw [sameId, decide_eq_true_eq, ← hid]
  refine ⟨⟨_, hname.symm⟩, ?_, hsuffix⟩
  have hlength := congrArg List.length hname
  simp only [length_append, length_cons, length_nil] at hlength
  omega

end Dmi.Spooling
