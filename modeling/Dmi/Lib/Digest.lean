import Dmi.Lib.Basic
import Dmi.Lib.Struct

/-!
# Checksums

`crc32` is the CRC-32 of `zlib` (reflected polynomial `0xEDB88320`), one bit at a
time, and `sha256` is SHA-256.  Both are total functions on byte strings; the one
fact about their values that the format code relies on is the length of the digest
(`length_sha256`) and of its hexadecimal text.
-/

namespace Dmi

open List

/-! ### CRC-32 -/

def crc32Bit (c : UInt32) : UInt32 :=
  if c &&& 1 = 1 then (c >>> 1) ^^^ 0xEDB88320 else c >>> 1

def crc32Byte (c : UInt32) (b : UInt8) : UInt32 :=
  Nat.repeat crc32Bit 8 (c ^^^ b.toUInt32)

/-- `zlib.crc32(data) & 0xFFFFFFFF`. -/
def crc32 (data : Bytes) : UInt32 := data.foldl crc32Byte 0xFFFFFFFF ^^^ 0xFFFFFFFF

/-! ### SHA-256 -/

namespace Sha256

/-- The round constants. -/
def roundConstants : List UInt32 := [
  0x428a2f98, 0x71374491, 0xb5c0fbcf, 0xe9b5dba5, 0x3956c25b, 0x59f111f1, 0x923f82a4, 0xab1c5ed5,
  0xd807aa98, 0x12835b01, 0x243185be, 0x550c7dc3, 0x72be5d74, 0x80deb1fe, 0x9bdc06a7, 0xc19bf174,
  0xe49b69c1, 0xefbe4786, 0x0fc19dc6, 0x240ca1cc, 0x2de92c6f, 0x4a7484aa, 0x5cb0a9dc, 0x76f988da,
  0x983e5152, 0xa831c66d, 0xb00327c8, 0xbf597fc7, 0xc6e00bf3, 0xd5a79147, 0x06ca6351, 0x14292967,
  0x27b70a85, 0x2e1b2138, 0x4d2c6dfc, 0x53380d13, 0x650a7354, 0x766a0abb, 0x81c2c92e, 0x92722c85,
  0xa2bfe8a1, 0xa81a664b, 0xc24b8b70, 0xc76c51a3, 0xd192e819, 0xd6990624, 0xf40e3585, 0x106aa070,
  0x19a4c116, 0x1e376c08, 0x2748774c, 0x34b0bcb5, 0x391c0cb3, 0x4ed8aa4a, 0x5b9cca4f, 0x682e6ff3,
  0x748f82ee, 0x78a5636f, 0x84c87814, 0x8cc70208, 0x90befffa, 0xa4506ceb, 0xbef9a3f7, 0xc67178f2]

structure State where
  a : UInt32
  b : UInt32
  c : UInt32
  d : UInt32
  e : UInt32
  f : UInt32
  g : UInt32
  h : UInt32

def initial : State :=
  ⟨0x6a09e667, 0xbb67ae85, 0x3c6ef372, 0xa54ff53a, 0x510e527f, 0x9b05688c, 0x1f83d9ab, 0x5be0cd19⟩

def rotr (x : UInt32) (n : UInt32) : UInt32 := (x >>> n) ||| (x <<< (32 - n))

/-- One round, on the word `w` of the schedule and the constant `k`. -/
def round (s : State) (k w : UInt32) : State :=
  let s1 := rotr s.e 6 ^^^ rotr s.e 11 ^^^ rotr s.e 25
  let ch := (s.e &&& s.f) ^^^ (~~~ s.e &&& s.g)
  let t1 := s.h + s1 + ch + k + w
  let s0 := rotr s.a 2 ^^^ rotr s.a 13 ^^^ rotr s.a 22
  let maj := (s.a &&& s.b) ^^^ (s.a &&& s.c) ^^^ (s.b &&& s.c)
  ⟨t1 + (s0 + maj), s.a, s.b, s.c, s.d + t1, s.e, s.f, s.g⟩

/-- The message schedule, newest word first. -/
def extend : Nat → List UInt32 → List UInt32
  | 0, ws => ws
  | n + 1, ws =>
    let w2 := ws.getD 1 0
    let w15 := ws.getD 14 0
    let s1 := rotr w2 17 ^^^ rotr w2 19 ^^^ (w2 >>> 10)
    let s0 := rotr w15 7 ^^^ rotr w15 18 ^^^ (w15 >>> 3)
    extend n ((s1 + ws.getD 6 0 + s0 + ws.getD 15 0) :: ws)

/-- Big-endian words. -/
def words : Bytes → List UInt32
  | a :: b :: c :: d :: r =>
    (a.toUInt32 <<< 24 ||| b.toUInt32 <<< 16 ||| c.toUInt32 <<< 8 ||| d.toUInt32) :: words r
  | _ => []

def compress (s : State) (block : Bytes) : State :=
  let schedule := (extend 48 (words block).reverse).reverse
  let t := (roundConstants.zip schedule).foldl (fun t kw => round t kw.1 kw.2) s
  ⟨s.a + t.a, s.b + t.b, s.c + t.c, s.d + t.d, s.e + t.e, s.f + t.f, s.g + t.g, s.h + t.h⟩

/-- The padded message: a set bit, zeros, and the bit length in eight bytes. -/
def pad (m : Bytes) : Bytes :=
  m ++ 0x80 :: (List.replicate ((119 - m.length % 64) % 64) 0 ++
    (Struct.leBytes 8 (8 * m.length)).reverse)

def blocks : Nat → Bytes → State → State
  | 0, _, s => s
  | n + 1, m, s => blocks n (m.drop 64) (compress s (m.take 64))

def wordBytes (w : UInt32) : Bytes := (Struct.leBytes 4 w.toNat).reverse

end Sha256

/-- `hashlib.sha256(data).digest()`. -/
def sha256 (data : Bytes) : Bytes :=
  let m := Sha256.pad data
  let s := Sha256.blocks (m.length / 64) m Sha256.initial
  [s.a, s.b, s.c, s.d, s.e, s.f, s.g, s.h].flatMap Sha256.wordBytes

theorem length_sha256 (data : Bytes) : (sha256 data).length = 32 := by
  simp [sha256, Sha256.wordBytes, Struct.length_leBytes]

/-! ### Hexadecimal text -/

def hexChar (d : Nat) : Char := Nat.digitChar d

/-- `data.hex()`. -/
def hexText (data : Bytes) : List Char :=
  data.flatMap fun b => [hexChar (b.toNat / 16), hexChar (b.toNat % 16)]

theorem length_hexText (data : Bytes) : (hexText data).length = 2 * data.length := by
  induction data with
  | nil => rfl
  | cons b r ih =>
    rw [hexText, flatMap_cons, length_append, ← hexText, ih, length_cons]
    simp only [length_cons, length_nil]
    omega

def isHexChar (c : Char) : Bool := c ∈ "0123456789abcdef".toList

theorem isHexChar_hexChar : ∀ d < 16, isHexChar (hexChar d) = true := by decide

theorem isHexChar_of_mem_hexText {data : Bytes} {c : Char} (h : c ∈ hexText data) :
    isHexChar c = true := by
  obtain ⟨b, _, hc⟩ := mem_flatMap.mp h
  have hb := b.toNat_lt
  simp only [mem_cons, not_mem_nil, or_false] at hc
  rcases hc with rfl | rfl
  · exact isHexChar_hexChar _ (by omega)
  · exact isHexChar_hexChar _ (by omega)

theorem prefixFree_hexByte :
    PrefixFree fun b : UInt8 => [hexChar (b.toNat / 16), hexChar (b.toNat % 16)] where
  ne_nil _ := List.cons_ne_nil _ _
  eq_of_isPrefix {a b} h := by
    have hinj : ∀ d < 16, ∀ e < 16, hexChar d = hexChar e → d = e := by decide
    have ha := a.toNat_lt
    have hb := b.toNat_lt
    have heq := h.eq_of_length rfl
    simp only [List.cons.injEq, and_true] at heq
    have h1 := hinj _ (by omega) _ (by omega) heq.1
    have h2 := hinj _ (by omega) _ (by omega) heq.2
    exact UInt8.toNat_inj.mp (by omega)

theorem hexText_injective : Function.Injective hexText := flatMap_injective prefixFree_hexByte

/-- `hashlib.sha256(data).hexdigest()`. -/
def sha256Hex (data : Bytes) : String := String.ofList (hexText (sha256 data))

/-- `f"{crc:08x}"`. -/
def crc32Hex (data : Bytes) : String :=
  String.ofList (hexText (Struct.leBytes 4 (crc32 data).toNat).reverse)

example : crc32Hex [0x31, 0x32, 0x33, 0x34, 0x35, 0x36, 0x37, 0x38, 0x39] = "cbf43926" := by
  decide +kernel

example : sha256Hex [0x61, 0x62, 0x63] =
    "ba7816bf8f01cfea414140de5dae2223b00361a396177a9cb410ff61f20015ad" := by
  decide +kernel

end Dmi
