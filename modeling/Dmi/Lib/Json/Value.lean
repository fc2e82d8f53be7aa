import Mathlib.Data.List.Sort
import Mathlib.Data.Nat.Digits.Defs
import Mathlib.Data.List.Lex

/-!
# JSON values and the compact encoder

A Python `str` is a sequence of code points in which lone surrogates may occur, so
a text here is a list of code points, `Str`, and not a Lean `String`; `cps` embeds
the latter.  `Value` is the universe of values that Python's `json` reads and
writes.  A `dict` is the list of its items; `Plain` says that its keys are distinct.

`dumps` is `json.dumps(value, sort_keys=True, separators=(",", ":"))`: it sorts the
members of every object (`sortKeys`) and then writes the compact ASCII text
(`render`).  A float is kept as the literal it was read from; nothing modelled here
writes one.
-/

namespace Dmi.Json

open List

/-- A Python `str`: its code points, surrogates included. -/
abbrev Str := List Nat

/-- The code points of a Lean string. -/
def cps (s : String) : Str := s.toList.map Char.toNat

theorem cps_injective : Function.Injective cps := by
  intro s t h
  have hl : s.toList = t.toList :=
    map_injective_iff.mpr (fun a b hab => Char.ext (UInt32.toNat.inj hab)) h
  exact String.toList_injective hl

/-- Whether a code point is a surrogate: such a code point has no UTF-8 form. -/
def isSurrogate (c : Nat) : Bool := 0xD800 ≤ c && c ≤ 0xDFFF

/-- A Unicode scalar value. -/
def Scalar (c : Nat) : Prop := c < 0x110000 ∧ isSurrogate c = false

instance (c : Nat) : Decidable (Scalar c) := inferInstanceAs (Decidable (_ ∧ _))

theorem scalar_toNat (c : Char) : Scalar c.toNat := by
  have h := c.valid
  simp only [Scalar, isSurrogate, Char.toNat, Bool.and_eq_false_iff, decide_eq_false_iff_not]
  omega

theorem scalar_of_mem_cps {s : String} {c : Nat} (h : c ∈ cps s) : Scalar c := by
  obtain ⟨d, _, rfl⟩ := mem_map.mp h
  exact scalar_toNat d

/-- The string a text encodes, when every code point has a UTF-8 form: what Python
does at `value.encode("utf-8")`, which raises on a surrogate. -/
def toString? (s : Str) : Option String :=
  if ∀ c ∈ s, Scalar c then some (String.ofList (s.map Char.ofNat)) else none

theorem ofNat_toNat_char (c : Char) : Char.ofNat c.toNat = c := Char.ofNat_toNat c

theorem toString?_cps (s : String) : toString? (cps s) = some s := by
  have hall : ∀ c ∈ cps s, Scalar c := fun c hc => scalar_of_mem_cps hc
  rw [toString?, if_pos hall, cps, map_map]
  have hid : (Char.ofNat ∘ Char.toNat) = id := funext ofNat_toNat_char
  rw [hid, map_id, String.ofList_toList]

theorem toString?_eq_some {s : Str} {t : String} : toString? s = some t ↔ s = cps t := by
  constructor
  · intro h
    unfold toString? at h
    split at h
    next hall =>
      cases h
      rw [cps, String.toList_ofList, map_map]
      refine (map_id s).symm.trans (map_congr_left fun c hc => ?_)
      obtain ⟨hlt, hsurrogate⟩ := hall c hc
      simp only [isSurrogate, Bool.and_eq_false_iff, decide_eq_false_iff_not] at hsurrogate
      have hvalid : c.isValidChar := by
        omega
      show c = (Char.ofNat c).toNat
      rw [Char.ofNat, dif_pos hvalid]
      rfl
    next => cases h
  · rintro rfl
    exact toString?_cps t

/-! ### Values -/

inductive Value where
  | null
  | bool (b : Bool)
  | int (n : Int)
  | float (literal : Str)
  | str (s : Str)
  | arr (xs : List Value)
  | obj (kvs : List (Str × Value))
  deriving Repr

/-- `value.get(key)` on a `dict`; a later item with the same key wins. -/
def lookup (key : Str) : List (Str × Value) → Option Value
  | [] => none
  | (k, v) :: r =>
    match lookup key r with
    | some w => some w
    | none => if k = key then some v else none

/-! ### Numbers and characters -/

/-- The decimal digits of a number. -/
def decimal (n : Nat) : Str := (Nat.toDigits 10 n).map Char.toNat

/-- `str(n)` for an `int`. -/
def renderInt : Int → Str
  | .ofNat n => decimal n
  | .negSucc n => '-'.toNat :: decimal (n + 1)

/-- A lower-case hexadecimal digit. -/
def hexDigit (d : Nat) : Nat := if d < 10 then '0'.toNat + d else 'a'.toNat + (d - 10)

/-- `"{:04x}".format(n)` for `n < 0x10000`. -/
def hex4 (n : Nat) : Str :=
  [hexDigit (n / 4096 % 16), hexDigit (n / 256 % 16), hexDigit (n / 16 % 16), hexDigit (n % 16)]

def unicodeEscape (n : Nat) : Str := '\\'.toNat :: 'u'.toNat :: hex4 n

/-- The characters with a short escape. -/
def shortEscape (c : Nat) : Option Nat :=
  if c = '"'.toNat then some '"'.toNat
  else if c = '\\'.toNat then some '\\'.toNat
  else if c = '\n'.toNat then some 'n'.toNat
  else if c = '\r'.toNat then some 'r'.toNat
  else if c = '\t'.toNat then some 't'.toNat
  else if c = 12 then some 'f'.toNat
  else if c = 8 then some 'b'.toNat
  else none

/-- One character as `ensure_ascii` writes it: the short escapes, the printable
ASCII characters as they are, and everything else as `\uXXXX`, above the basic
plane as a surrogate pair. -/
def escapeChar (c : Nat) : Str :=
  match shortEscape c with
  | some e => ['\\'.toNat, e]
  | none =>
    if 0x20 ≤ c ∧ c ≤ 0x7E then [c]
    else if c < 0x10000 then unicodeEscape c
    else unicodeEscape (0xD800 + (c - 0x10000) / 1024)
      ++ unicodeEscape (0xDC00 + (c - 0x10000) % 1024)

def renderStr (s : Str) : Str := '"'.toNat :: (s.flatMap escapeChar ++ ['"'.toNat])

/-! ### The encoder -/

mutual
/-- The compact text of a value, members in the order they have. -/
def render : Value → Str
  | .null => cps "null"
  | .bool true => cps "true"
  | .bool false => cps "false"
  | .int n => renderInt n
  | .float l => l
  | .str s => renderStr s
  | .arr [] => cps "[]"
  | .arr (x :: xs) => '['.toNat :: (render x ++ renderElems xs)
  | .obj [] => cps "\x7b\x7d"
  | .obj ((k, v) :: kvs) =>
    '\x7b'.toNat :: (renderStr k ++ ':'.toNat :: (render v ++ renderMembers kvs))

/-- The rest of an array after one element: its commas, elements and bracket. -/
def renderElems : List Value → Str
  | [] => [']'.toNat]
  | x :: xs => ','.toNat :: (render x ++ renderElems xs)

/-- The rest of an object after one member. -/
def renderMembers : List (Str × Value) → Str
  | [] => ['\x7d'.toNat]
  | (k, v) :: kvs =>
    ','.toNat :: (renderStr k ++ ':'.toNat :: (render v ++ renderMembers kvs))
end

/-- Python compares strings by code points. -/
def keyLe (a b : Str × Value) : Prop := a.1 ≤ b.1

instance : DecidableRel keyLe := fun a b => inferInstanceAs (Decidable (a.1 ≤ b.1))

mutual
/-- The value with the members of every object sorted by key. -/
def sortKeys : Value → Value
  | .arr xs => .arr (sortElems xs)
  | .obj kvs => .obj (sortMembers kvs)
  | .null => .null
  | .bool b => .bool b
  | .int n => .int n
  | .float l => .float l
  | .str s => .str s

def sortElems : List Value → List Value
  | [] => []
  | x :: xs => sortKeys x :: sortElems xs

def sortMembers : List (Str × Value) → List (Str × Value)
  | [] => []
  | (k, v) :: kvs => (sortMembers kvs).orderedInsert keyLe (k, sortKeys v)
end

/-- `json.dumps(value, sort_keys=True, separators=(",", ":"))`. -/
def dumps (v : Value) : Str := render (sortKeys v)

theorem sortElems_eq_map (xs : List Value) : sortElems xs = xs.map sortKeys := by
  induction xs with
  | nil => rfl
  | cons x xs ih => rw [sortElems, ih, map_cons]

/-- Sorting members that stand for indices sorts the indices by their keys. -/
theorem sortMembers_map {ι : Type} (key : ι → Str) (value : ι → Value) (l : List ι) :
    sortMembers (l.map fun i => (key i, value i)) =
      (l.insertionSort fun i j => key i ≤ key j).map fun i => (key i, sortKeys (value i)) := by
  induction l with
  | nil => rfl
  | cons i l ih =>
    rw [map_cons, sortMembers, ih, insertionSort_cons]
    symm
    apply map_orderedInsert <;> exact fun _ _ => Iff.rfl

/-- `sep.join(parts)` for the one-character separator of the compact form. -/
def joinComma : List Str → Str
  | [] => []
  | [p] => p
  | p :: q :: ps => p ++ ','.toNat :: joinComma (q :: ps)

theorem render_append_renderElems (x : Value) (xs : List Value) :
    render x ++ renderElems xs = joinComma (render x :: xs.map render) ++ [']'.toNat] := by
  induction xs generalizing x with
  | nil => rw [renderElems, map_nil, joinComma]
  | cons y ys ih =>
    rw [renderElems, ih, map_cons, joinComma, append_assoc, cons_append]

/-- **An array is the join of its elements in brackets**, however it was written. -/
theorem render_arr (xs : List Value) :
    render (.arr xs) = '['.toNat :: (joinComma (xs.map render) ++ [']'.toNat]) := by
  cases xs with
  | nil => rfl
  | cons x xs => rw [render, render_append_renderElems, map_cons]

end Dmi.Json
