import Mathlib.Data.List.Induction
import Dmi.Capture.Pack.Writer

/-!
# UUID texts

`UUID(text)` of the standard library: it drops every `urn:` and `uuid:`, braces around the
text and all hyphens, and gives the 32 characters that are left to `int(hex, 16)`.  That takes
more than digits: blanks around the number, a sign, `0x`, and single underscores between
digits.  Characters outside ASCII count through the Unicode database, which is a parameter: it
gives a blank for a space, the ASCII digit for a decimal digit, and `?` otherwise.
-/

namespace Dmi.Capture

open List

/-! ### `int(text, 16)` -/

def isSpace (c : Char) : Bool := c = ' ' || ('\t' ≤ c && c ≤ '\r')

/-- The value of a digit in base 16. -/
def hexDigit? (c : Char) : Option Nat :=
  if '0' ≤ c ∧ c ≤ '9' then some (c.toNat - '0'.toNat)
  else if 'a' ≤ c ∧ c ≤ 'f' then some (c.toNat - 'a'.toNat + 10)
  else if 'A' ≤ c ∧ c ≤ 'F' then some (c.toNat - 'A'.toNat + 10)
  else none

/-- Digits with single underscores between them, and what follows; `underscore` says that one
was just read. -/
def scanHex (underscore : Bool) : List Char → Option (List Nat × List Char)
  | [] => if underscore then none else some ([], [])
  | c :: rest =>
    match hexDigit? c with
    | some d => (scanHex false rest).map fun (digits, rest) => (d :: digits, rest)
    | none =>
      if underscore then none
      else if c = '_' then scanHex true rest
      else some ([], c :: rest)

/-- The number that digits in base 16 write. -/
def hexNumber (digits : List Nat) : Nat := digits.foldl (fun n d => n * 16 + d) 0

/-- `int(text, 16)`; `none` is `ValueError`. -/
def parseHexInt (unicode : Char → Char) (text : List Char) : Option Int :=
  let text := (text.map fun c => if c.toNat < 127 then c else unicode c).dropWhile isSpace
  let negative := text.head? = some '-'
  let text := if text.head? = some '+' ∨ text.head? = some '-' then text.drop 1 else text
  let prefixed := text.take 2 = ['0', 'x'] ∨ text.take 2 = ['0', 'X']
  let text := if prefixed then text.drop 2 else text
  let text := if prefixed ∧ text.head? = some '_' then text.drop 1 else text
  if text.head? = some '_' then none
  else
    match scanHex false text with
    | none => none
    | some (digits, rest) =>
      if digits = [] ∨ rest.dropWhile isSpace ≠ [] then none
      else some (if negative then -(hexNumber digits : Int) else hexNumber digits)

/-! ### `UUID(text)` -/

/-- `text.replace(word, "")`; `skip` characters of a match are still to be dropped. -/
def removeAll (word : List Char) (skip : Nat) : List Char → List Char
  | [] => []
  | c :: rest =>
    match skip with
    | skip + 1 => removeAll word skip rest
    | 0 =>
      if word <+: c :: rest then removeAll word (word.length - 1) rest
      else c :: removeAll word 0 rest

def isBrace (c : Char) : Bool := c = '\x7b' || c = '\x7d'

/-- `text.strip("{}")`. -/
def stripBraces (text : List Char) : List Char :=
  ((text.dropWhile isBrace).reverse.dropWhile isBrace).reverse

/-- The 32 characters that `UUID(text)` gives to `int`. -/
def uuidHex (text : String) : List Char :=
  let text := removeAll "uuid:".toList 0 (removeAll "urn:".toList 0 text.toList)
  (stripBraces text).filter (· ≠ '-')

/-- `UUID(text)`; `none` is `ValueError`. -/
def Uuid.ofText (unicode : Char → Char) (text : String) : Option Uuid :=
  let hex := uuidHex text
  if hex.length ≠ 32 then none
  else
    match parseHexInt unicode hex with
    | none => none
    | some n =>
      if 0 ≤ n ∧ n < 2 ^ 128 then
        some ⟨(Struct.leBytes 16 n.toNat).reverse, by
          rw [List.length_reverse, Struct.length_leBytes]⟩
      else none

/-! ### Texts of digits -/

theorem removeAll_eq_self {word text : List Char} {c : Char} (hc : c ∈ word) (h : c ∉ text) :
    removeAll word 0 text = text := by
  induction text with
  | nil => rfl
  | cons a text ih =>
    have hword : ¬ word <+: a :: text := fun hp => h (hp.subset hc)
    rw [removeAll, if_neg hword, ih fun hmem => h (mem_cons_of_mem a hmem)]

/-- The digits that the characters write. -/
def Digits (text : List Char) (digits : List Nat) : Prop :=
  List.Forall₂ (fun c d => hexDigit? c = some d) text digits

variable {digits : List Nat}

theorem scanHex_digits {text : List Char} (h : Digits text digits) :
    scanHex false text = some (digits, []) := by
  induction h with
  | nil => rfl
  | cons hd _ ih => simp only [scanHex, hd, ih, Option.map_some]

theorem hexDigit?_some {c : Char} {d : Nat} (h : hexDigit? c = some d) :
    c.toNat < 127 ∧ isSpace c = false ∧ c ∉ ['+', '-', 'x', 'X', '_', ':'] ∧ isBrace c = false ∧
      d < 16 := by
  have hascii : ∀ n < 103, ∀ d ∈ hexDigit? (Char.ofNat n), isSpace (Char.ofNat n) = false ∧
      Char.ofNat n ∉ ['+', '-', 'x', 'X', '_', ':'] ∧ isBrace (Char.ofNat n) = false ∧ d < 16 := by
    decide +kernel
  have hlt : c.toNat < 103 := by
    change (if 48 ≤ c.toNat ∧ c.toNat ≤ 57 then _ else if 97 ≤ c.toNat ∧ c.toNat ≤ 102 then _
      else if 65 ≤ c.toNat ∧ c.toNat ≤ 70 then _ else _) = _ at h
    split_ifs at h <;> omega
  have hchar := hascii c.toNat hlt d (by rw [Char.ofNat_toNat]; exact h)
  rw [Char.ofNat_toNat] at hchar
  exact ⟨by omega, hchar⟩

theorem hexNumber_append (ds es : List Nat) :
    hexNumber (ds ++ es) = es.foldl (fun n d => n * 16 + d) (hexNumber ds) := by
  rw [hexNumber, foldl_append]
  rfl

theorem hexNumber_lt (h : ∀ d ∈ digits, d < 16) : hexNumber digits < 16 ^ digits.length := by
  induction digits using List.reverseRecOn with
  | nil => decide
  | append_singleton ds d ih =>
    have hd := h d (by simp)
    have hds := ih fun e he => h e (mem_append_left _ he)
    rw [hexNumber_append, length_append, length_singleton, Nat.pow_succ]
    simp only [foldl_cons, foldl_nil]
    omega

theorem dropWhile_isBrace {braces rest : List Char} (h : ∀ c ∈ braces, isBrace c = true)
    (hrest : ∀ c ∈ rest.head?, isBrace c = false) : (braces ++ rest).dropWhile isBrace = rest := by
  rw [dropWhile_append_of_pos h]
  cases rest with
  | nil => rfl
  | cons c rest => rw [dropWhile_cons, hrest c rfl, if_neg Bool.false_ne_true]

theorem stripBraces_eq {front mid back : List Char} (hfront : ∀ c ∈ front, isBrace c = true)
    (hback : ∀ c ∈ back, isBrace c = true) (hmid : ∀ c ∈ mid, isBrace c = false) (hne : mid ≠ []) :
    stripBraces (front ++ (mid ++ back)) = mid := by
  have hhead : ∀ c ∈ (mid ++ back).head?, isBrace c = false := by
    intro c hc
    rw [head?_append_of_ne_nil _ hne] at hc
    exact hmid c (mem_of_mem_head? hc)
  have hlast : ∀ c ∈ mid.reverse.head?, isBrace c = false := fun c hc =>
    hmid c (mem_reverse.mp (mem_of_mem_head? hc))
  rw [stripBraces, dropWhile_isBrace hfront hhead, reverse_append,
    dropWhile_isBrace (fun c hc => hback c (mem_reverse.mp hc)) hlast, reverse_reverse]

theorem parseHexInt_digits (unicode : Char → Char) {text : List Char} (h : Digits text digits)
    (hne : digits ≠ []) : parseHexInt unicode text = some (hexNumber digits : Int) := by
  have hchars : ∀ c ∈ text, c.toNat < 127 ∧ isSpace c = false ∧
      c ∉ ['+', '-', 'x', 'X', '_', ':'] := by
    intro c hc
    obtain ⟨d, -, hd⟩ := forall₂_exists_right h c hc
    exact ⟨(hexDigit?_some hd).1, (hexDigit?_some hd).2.1, (hexDigit?_some hd).2.2.1⟩
  have hmap : (text.map fun c => if c.toNat < 127 then c else unicode c) = text := by
    refine (map_congr_left fun c hc => if_pos (hchars c hc).1).trans (map_id text)
  have hspace : text.dropWhile isSpace = text := by
    cases text with
    | nil => rfl
    | cons c text =>
      rw [dropWhile_cons, (hchars c mem_cons_self).2.1, if_neg Bool.false_ne_true]
  have hhead : ∀ c ∈ ['+', '-', 'x', 'X', '_', ':'], text.head? ≠ some c := fun c hc heq =>
    (hchars c (mem_of_mem_head? heq)).2.2 hc
  have hprefixed : ∀ c ∈ ['+', '-', 'x', 'X', '_', ':'], text.take 2 ≠ ['0', c] := by
    intro c hc heq
    have hmem : c ∈ text.take 2 := by
      rw [heq]
      simp
    exact (hchars c (mem_of_mem_take hmem)).2.2 hc
  simp only [parseHexInt, hmap, hspace, hhead '+' (by decide), hhead '-' (by decide),
    hhead '_' (by decide), hprefixed 'x' (by decide), hprefixed 'X' (by decide), or_self,
    false_and, if_false, scanHex_digits h, hne, dropWhile_nil, ne_eq, not_true]

/-- **A UUID of digits**, with hyphens anywhere and at most braces around it. -/
theorem Uuid.ofText_digits (unicode : Char → Char) {text : String} {front mid back : List Char}
    (htext : text.toList = front ++ (mid ++ back))
    (hfront : ∀ c ∈ front, isBrace c = true) (hback : ∀ c ∈ back, isBrace c = true)
    (hmid : Digits (mid.filter (· ≠ '-')) digits) (hlen : digits.length = 32) :
    ∃ u, Uuid.ofText unicode text = some u ∧
      u.bytes = (Struct.leBytes 16 (hexNumber digits)).reverse := by
  have hdigit : ∀ c ∈ mid, c ≠ '-' → ∃ d, hexDigit? c = some d := by
    intro c hc hne
    obtain ⟨d, -, hd⟩ := forall₂_exists_right hmid c
      (mem_filter.mpr ⟨hc, decide_eq_true hne⟩)
    exact ⟨d, hd⟩
  have hmidBrace : ∀ c ∈ mid, isBrace c = false := by
    intro c hc
    by_cases hdash : c = '-'
    · subst hdash
      rfl
    · obtain ⟨d, hd⟩ := hdigit c hc hdash
      exact (hexDigit?_some hd).2.2.2.1
  have hcolon : ':' ∉ text.toList := by
    rw [htext]
    intro hmem
    rcases mem_append.mp hmem with hmem | hmem
    · exact absurd (hfront ':' hmem) (by decide)
    rcases mem_append.mp hmem with hmem | hmem
    · obtain ⟨d, hd⟩ := hdigit ':' hmem (by decide)
      exact (hexDigit?_some hd).2.2.1 (by decide)
    · exact absurd (hback ':' hmem) (by decide)
  have hne : digits ≠ [] := ne_nil_of_length_pos (by omega)
  have hmidNe : mid ≠ [] := by
    rintro rfl
    cases hmid
    exact hne rfl
  have hhex : uuidHex text = mid.filter (· ≠ '-') := by
    have hurn : removeAll "urn:".toList 0 text.toList = text.toList :=
      removeAll_eq_self (c := ':') (by decide) hcolon
    rw [uuidHex, hurn, removeAll_eq_self (c := ':') (by decide) hcolon, htext,
      stripBraces_eq hfront hback hmidBrace hmidNe]
  have hlt : hexNumber digits < 16 ^ 32 := by
    rw [← hlen]
    refine hexNumber_lt fun d hd => ?_
    obtain ⟨c, -, hc⟩ := forall₂_exists_right (Forall₂.flip hmid) d hd
    exact (hexDigit?_some hc).2.2.2.2
  have hsize : (mid.filter (· ≠ '-')).length = 32 := (Forall₂.length_eq hmid).trans hlen
  have hrange : (0 : Int) ≤ (hexNumber digits : Int) ∧ (hexNumber digits : Int) < 2 ^ 128 := by
    omega
  refine ⟨⟨(Struct.leBytes 16 (hexNumber digits)).reverse, by
    rw [length_reverse, Struct.length_leBytes]⟩, ?_, rfl⟩
  simp only [Uuid.ofText, hhex, hsize, parseHexInt_digits unicode hmid hne, hrange, and_self,
    ne_eq, not_true_eq_false, if_false, if_true, Int.toNat_natCast]

end Dmi.Capture
