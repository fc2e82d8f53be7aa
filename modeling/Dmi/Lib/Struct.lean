import Mathlib.Data.List.Forall2
import Mathlib.Algebra.Ring.Nat

/-!
# Binary records

Python's `struct` for little-endian formats of byte strings (`Ns`) and unsigned
integers (`H`, `I`, `Q`), with the standard sizes and no padding between fields.
`pack` fails (`struct.error`) on an integer that does not fit its field; a byte
string is cut or zero-filled to its width, as `struct` does.

`unpackFrom_pack` is the round trip: what was packed, with byte strings of exactly
their width, is unpacked again, whatever bytes follow.
-/

namespace Dmi

open List

/-- A Python `bytes` object. -/
abbrev Bytes := List UInt8

/-- `data[start:stop]` for non-negative bounds. -/
def slice (data : Bytes) (start stop : Nat) : Bytes := (data.drop start).take (stop - start)

theorem slice_append_mid (a b c : Bytes) :
    slice (a ++ (b ++ c)) a.length (a.length + b.length) = b := by
  rw [slice, drop_left, Nat.add_sub_cancel_left, take_left]

theorem slice_append_left {a : Bytes} {stop : Nat} (h : stop ≤ a.length) (b : Bytes) (start : Nat) :
    slice (a ++ b) start stop = slice a start stop := by
  rw [slice, slice]
  rcases Nat.lt_or_ge start a.length with hs | hs
  · rw [drop_append_of_le_length (by omega), take_append_of_le_length]
    rw [length_drop]
    omega
  · rw [Nat.sub_eq_zero_of_le (by omega), take_zero, take_zero]

namespace Struct

/-! ### Little-endian integers -/

/-- The `w` low bytes of `n`, least significant first. -/
def leBytes : Nat → Nat → Bytes
  | 0, _ => []
  | w + 1, n => UInt8.ofNat n :: leBytes w (n / 256)

def leValue : Bytes → Nat
  | [] => 0
  | b :: r => b.toNat + 256 * leValue r

theorem length_leBytes (w n : Nat) : (leBytes w n).length = w := by
  induction w generalizing n with
  | zero => rfl
  | succ w ih => rw [leBytes, length_cons, ih]

theorem leValue_leBytes {w n : Nat} (h : n < 256 ^ w) : leValue (leBytes w n) = n := by
  induction w generalizing n with
  | zero =>
    rw [leBytes, leValue]
    omega
  | succ w ih =>
    have hdiv : n / 256 < 256 ^ w := by
      exact Nat.div_lt_of_lt_mul (by omega)
    rw [leBytes, leValue, ih hdiv, UInt8.toNat_ofNat']
    omega

/-! ### Formats -/

/-- One item of a format: `Ns`, or an unsigned integer of `w` bytes. -/
inductive Field where
  | raw (w : Nat)
  | uint (w : Nat)
  deriving DecidableEq, Repr

inductive Cell where
  | raw (b : Bytes)
  | uint (n : Nat)
  deriving DecidableEq, Repr

def Field.width : Field → Nat
  | .raw w => w
  | .uint w => w

/-- `Struct.size`. -/
def size (fmt : List Field) : Nat := (fmt.map Field.width).sum

def packCell : Field → Cell → Option Bytes
  | .raw w, .raw b => some (b.take w ++ List.replicate (w - b.length) 0)
  | .uint w, .uint n => if n < 256 ^ w then some (leBytes w n) else none
  | _, _ => none

theorem packCell_raw {w : Nat} {b : Bytes} (h : b.length = w) :
    packCell (.raw w) (.raw b) = some b := by
  rw [packCell, take_of_length_le (Nat.le_of_eq h), h, Nat.sub_self, replicate_zero,
    append_nil]

theorem packCell_uint {w n : Nat} (h : n < 256 ^ w) :
    packCell (.uint w) (.uint n) = some (leBytes w n) := if_pos h

/-- `Struct.pack`; `none` is `struct.error`. -/
def pack : List Field → List Cell → Option Bytes
  | [], [] => some []
  | f :: fs, c :: cs => do
    let b ← packCell f c
    let r ← pack fs cs
    return b ++ r
  | _, _ => none

def unpackCell : Field → Bytes → Cell
  | .raw _, b => .raw b
  | .uint _, b => .uint (leValue b)

def unpackCells : List Field → Bytes → List Cell
  | [], _ => []
  | f :: fs, d => unpackCell f (d.take f.width) :: unpackCells fs (d.drop f.width)

/-- `Struct.unpack_from`; `none` is `struct.error`, on a buffer that is too short. -/
def unpackFrom (fmt : List Field) (data : Bytes) : Option (List Cell) :=
  if size fmt ≤ data.length then some (unpackCells fmt data) else none

/-! ### Round trip -/

/-- A byte string of exactly its field's width; integers are checked by `pack`. -/
def Exact : Field → Cell → Prop
  | .raw w, .raw b => b.length = w
  | _, _ => True

theorem packCell_spec {f : Field} {c : Cell} {b : Bytes} (h : packCell f c = some b)
    (hx : Exact f c) : b.length = f.width ∧ unpackCell f b = c := by
  cases f with
  | raw w =>
    cases c with
    | raw d =>
      cases h
      have hlen : d.length = w := hx
      subst hlen
      refine ⟨?_, ?_⟩
      · simp [Field.width]
      · simp [unpackCell]
    | uint n => cases h
  | uint w =>
    cases c with
    | raw d => cases h
    | uint n =>
      rw [packCell] at h
      split_ifs at h with hlt
      cases h
      exact ⟨length_leBytes w n, by rw [unpackCell, leValue_leBytes hlt]⟩

variable {fmt : List Field} {cs : List Cell}

theorem pack_spec (hx : List.Forall₂ Exact fmt cs) :
    ∀ {b : Bytes}, pack fmt cs = some b →
      b.length = size fmt ∧ ∀ r, unpackCells fmt (b ++ r) = cs := by
  induction hx with
  | nil =>
    intro b h
    cases h
    exact ⟨rfl, fun _ => rfl⟩
  | @cons f c fs cs hfc _ ih =>
    intro b h
    obtain ⟨d, hd, h⟩ := Option.bind_eq_some_iff.mp h
    obtain ⟨t, ht, h⟩ := Option.bind_eq_some_iff.mp h
    cases h
    obtain ⟨hlen, hun⟩ := packCell_spec hd hfc
    obtain ⟨hlen', hun'⟩ := ih ht
    refine ⟨?_, fun r => ?_⟩
    · rw [length_append, hlen, hlen', size, size, map_cons, sum_cons]
    · rw [unpackCells, ← hlen, append_assoc, take_left, drop_left, hun, hun']

/-- A cell that its field can hold. -/
def Fits : Field → Cell → Prop
  | .raw _, .raw _ => True
  | .uint w, .uint n => n < 256 ^ w
  | _, _ => False

theorem pack_of_fits (h : List.Forall₂ Fits fmt cs) : ∃ b, pack fmt cs = some b := by
  induction h with
  | nil => exact ⟨[], rfl⟩
  | @cons f c fs cs hfc _ ih =>
    obtain ⟨r, hr⟩ := ih
    have hcell : ∃ b, packCell f c = some b := by
      cases f with
      | raw w =>
        cases c with
        | raw b => exact ⟨_, rfl⟩
        | uint n => exact hfc.elim
      | uint w =>
        cases c with
        | raw b => exact hfc.elim
        | uint n => exact ⟨_, if_pos hfc⟩
    obtain ⟨b, hb⟩ := hcell
    exact ⟨b ++ r, by rw [pack, hb, hr]; rfl⟩

theorem lt_of_pack {b : Bytes} (h : pack fmt cs = some b)
    {w n : Nat} (hmem : (Field.uint w, Cell.uint n) ∈ fmt.zip cs) : n < 256 ^ w := by
  induction fmt generalizing cs b with
  | nil => exact absurd hmem not_mem_nil
  | cons f fs ih =>
    cases cs with
    | nil => exact absurd hmem not_mem_nil
    | cons c cs =>
      obtain ⟨d, hd, h⟩ := Option.bind_eq_some_iff.mp h
      obtain ⟨t, ht, _⟩ := Option.bind_eq_some_iff.mp h
      rw [zip_cons_cons, mem_cons] at hmem
      rcases hmem with heq | hmem
      · obtain ⟨rfl, rfl⟩ := Prod.mk.inj heq
        rw [packCell] at hd
        split_ifs at hd with hlt
        exact hlt
      · exact ih ht hmem

theorem length_pack {b : Bytes}
    (hx : List.Forall₂ Exact fmt cs) (h : pack fmt cs = some b) : b.length = size fmt :=
  (pack_spec hx h).1

/-- **What was packed is unpacked**, whatever follows it. -/
theorem unpackFrom_pack {b : Bytes} (hx : List.Forall₂ Exact fmt cs)
    (h : pack fmt cs = some b) (r : Bytes) : unpackFrom fmt (b ++ r) = some cs := by
  obtain ⟨hlen, hun⟩ := pack_spec hx h
  rw [unpackFrom, if_pos, hun r]
  rw [length_append, hlen]
  exact Nat.le_add_right _ _

end Struct

end Dmi
