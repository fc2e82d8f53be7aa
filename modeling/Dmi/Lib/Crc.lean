import Dmi.Lib.Digest

/-!
# Table-driven CRC-32

A CRC register moves linearly: `shift`, the effect of a zero byte, is a homomorphism for
exclusive or, and so the effect of many bytes at once is a sum of effects of single bytes
that can be looked up (`crcTable`).  `crc32Sliced` takes sixteen bytes in one step, four words
of which only the first one meets the register, and the rest one by one.

`crc32Sliced_eq` says that this is `crc32`.
-/

namespace Dmi

open List

/-! ### The register moves linearly -/

/-- The register after a zero byte. -/
def shift (c : UInt32) : UInt32 := Nat.repeat crc32Bit 8 c

variable (c : UInt32)

theorem crc32Byte_eq (b : UInt8) : crc32Byte c b = shift (c ^^^ b.toUInt32) := rfl

theorem toNat_and_one : (c &&& 1).toNat = c.toNat % 2 := by
  exact Nat.and_one_is_mod _

theorem and_one_cases : c &&& 1 = 0 ∨ c &&& 1 = 1 := by
  have h := toNat_and_one c
  rcases Nat.mod_two_eq_zero_or_one c.toNat with h0 | h1
  · exact .inl (UInt32.toNat_inj.mp (h.trans h0))
  · exact .inr (UInt32.toNat_inj.mp (h.trans h1))

theorem crc32Bit_eq : crc32Bit c = (c >>> 1) ^^^ (if c &&& 1 = 1 then 0xEDB88320 else 0) := by
  unfold crc32Bit
  split
  · rfl
  · rw [UInt32.xor_zero]

theorem xor_xor_xor_comm (a b c d : UInt32) :
    (a ^^^ b) ^^^ (c ^^^ d) = (a ^^^ c) ^^^ (b ^^^ d) := by
  rw [UInt32.xor_assoc, UInt32.xor_assoc, ← UInt32.xor_assoc b, UInt32.xor_comm b c,
    UInt32.xor_assoc]

theorem crc32Bit_xor (x y : UInt32) : crc32Bit (x ^^^ y) = crc32Bit x ^^^ crc32Bit y := by
  have hand : (x ^^^ y) &&& 1 = (x &&& 1) ^^^ (y &&& 1) := by
    apply UInt32.toNat_inj.mp
    exact Nat.and_xor_distrib_right
  rw [crc32Bit_eq, crc32Bit_eq, crc32Bit_eq, UInt32.shiftRight_xor, hand, xor_xor_xor_comm]
  rcases and_one_cases x with hx | hx <;> rcases and_one_cases y with hy | hy <;>
    rw [hx, hy] <;> rfl

theorem repeat_xor {f : UInt32 → UInt32} (hf : ∀ x y, f (x ^^^ y) = f x ^^^ f y) (n : Nat)
    (x y : UInt32) : Nat.repeat f n (x ^^^ y) = Nat.repeat f n x ^^^ Nat.repeat f n y := by
  induction n with
  | zero => rfl
  | succ n ih => rw [Nat.repeat, ih, hf, Nat.repeat, Nat.repeat]

theorem shift_xor (x y : UInt32) : shift (x ^^^ y) = shift x ^^^ shift y :=
  repeat_xor crc32Bit_xor 8 x y

/-- Zero bits only leave the register. -/
theorem toNat_repeat_crc32Bit {c : UInt32} {k : Nat} (h : 2 ^ k ∣ c.toNat) :
    (Nat.repeat crc32Bit k c).toNat = c.toNat / 2 ^ k := by
  induction k with
  | zero => rw [Nat.pow_zero, Nat.div_one, Nat.repeat]
  | succ k ih =>
    obtain ⟨q, hq⟩ := h
    have hk := ih ⟨2 * q, by rw [hq, Nat.pow_succ, Nat.mul_assoc]⟩
    have hval : (Nat.repeat crc32Bit k c).toNat = 2 * q := by
      rw [hk, hq, Nat.pow_succ, Nat.mul_assoc, Nat.mul_div_cancel_left _ (Nat.two_pow_pos k)]
    have heven : ¬ Nat.repeat crc32Bit k c &&& 1 = 1 := by
      intro hodd
      have := toNat_and_one (Nat.repeat crc32Bit k c)
      rw [hodd, hval] at this
      have hone : (1 : UInt32).toNat = 1 := rfl
      omega
    rw [Nat.repeat, crc32Bit, if_neg heven, UInt32.toNat_shiftRight, hval, hq,
      Nat.mul_div_cancel_left _ (Nat.two_pow_pos (k + 1))]
    show (2 * q) >>> 1 = q
    omega

/-- The low byte moves the register, and the other bytes move down. -/
theorem shift_split : shift c = (c >>> 8) ^^^ shift (c &&& 0xFF) := by
  have hsplit : c = (c >>> 8 <<< 8) ^^^ (c &&& 0xFF) := by
    apply UInt32.toBitVec_inj.mp
    apply BitVec.eq_of_getLsbD_eq
    intro i hi
    have hmask : ∀ i < 32, (255#32).getLsbD i = decide (i < 8) := by decide
    simp only [UInt32.toBitVec_xor, UInt32.toBitVec_and, UInt32.toBitVec_shiftLeft,
      UInt32.toBitVec_shiftRight, BitVec.getLsbD_xor, BitVec.getLsbD_and]
    show c.toBitVec.getLsbD i = ((c.toBitVec >>> 8 <<< 8).getLsbD i ^^
      (c.toBitVec.getLsbD i && (255#32).getLsbD i))
    simp only [BitVec.getLsbD_shiftLeft, BitVec.getLsbD_ushiftRight, hmask i hi, hi, decide_true,
      Bool.true_and]
    by_cases h : i < 8
    · simp only [h, decide_true, Bool.not_true, Bool.false_and, Bool.and_true, Bool.false_xor]
    · simp only [h, decide_false, Bool.not_false, Bool.true_and, Bool.and_false, Bool.xor_false]
      congr 1
      omega
  have hhigh : shift (c >>> 8 <<< 8) = c >>> 8 := by
    have hlt := c.toNat_lt
    have hval : (c >>> 8 <<< 8).toNat = c.toNat / 256 * 256 := by
      show (c.toNat >>> 8) <<< 8 % 2 ^ 32 = c.toNat / 256 * 256
      omega
    apply UInt32.toNat_inj.mp
    rw [shift, toNat_repeat_crc32Bit ⟨c.toNat / 256, by omega⟩, hval,
      UInt32.toNat_shiftRight]
    show c.toNat / 256 * 256 / 2 ^ 8 = c.toNat >>> 8
    omega
  conv_lhs => rw [hsplit, shift_xor, hhigh]

/-! ### Many zero bytes -/

/-- The register after `n` zero bytes. -/
def shifts (n : Nat) (c : UInt32) : UInt32 := Nat.repeat shift n c

theorem shifts_xor (n : Nat) (x y : UInt32) : shifts n (x ^^^ y) = shifts n x ^^^ shifts n y :=
  repeat_xor shift_xor n x y

theorem shifts_succ (n : Nat) (c : UInt32) : shifts (n + 1) c = shift (shifts n c) := rfl

theorem shifts_add (m n : Nat) (c : UInt32) : shifts (m + n) c = shifts m (shifts n c) := by
  induction m with
  | zero => rw [Nat.zero_add]; rfl
  | succ m ih => rw [Nat.succ_add, shifts_succ, ih, shifts_succ]

/-- The bytes of a word, least significant first. -/
def wordByte (c : UInt32) : Nat → UInt32
  | 0 => c &&& 0xFF
  | 1 => (c >>> 8) &&& 0xFF
  | 2 => (c >>> 16) &&& 0xFF
  | _ => (c >>> 24) &&& 0xFF

/-- Four zero bytes move each byte of the register on its own. -/
theorem shifts_four : shifts 4 c =
    shifts 4 (wordByte c 0) ^^^ shifts 3 (wordByte c 1) ^^^ shifts 2 (wordByte c 2) ^^^
      shifts 1 (wordByte c 3) := by
  have hshift : ∀ a b : UInt32, a.toNat + b.toNat < 32 → c >>> a >>> b = c >>> (a + b) := by
    intro a b hab
    apply UInt32.toNat_inj.mp
    have hsum : (a + b).toNat = a.toNat + b.toNat := by
      rw [UInt32.toNat_add]
      omega
    rw [UInt32.toNat_shiftRight, UInt32.toNat_shiftRight, UInt32.toNat_shiftRight, hsum,
      Nat.mod_eq_of_lt (by omega), Nat.mod_eq_of_lt (by omega), Nat.mod_eq_of_lt (by omega),
      Nat.shiftRight_add]
  have h16 : c >>> 8 >>> 8 = c >>> 16 := hshift 8 8 (by decide)
  have h24 : c >>> 16 >>> 8 = c >>> 24 := hshift 16 8 (by decide)
  have hzero : c >>> 24 >>> 8 = 0 := by
    have hlt := c.toNat_lt
    apply UInt32.toNat_inj.mp
    show c.toNat >>> 24 >>> 8 = 0
    omega
  have h1 : shifts 1 c = (c >>> 8) ^^^ shifts 1 (wordByte c 0) := shift_split c
  have h2 : shifts 2 c = (c >>> 16) ^^^ shifts 1 (wordByte c 1) ^^^ shifts 2 (wordByte c 0) := by
    rw [shifts_succ, h1, shift_xor, shift_split (c >>> 8), h16]
    rfl
  have h3 : shifts 3 c = (c >>> 24) ^^^ shifts 1 (wordByte c 2) ^^^ shifts 2 (wordByte c 1) ^^^
      shifts 3 (wordByte c 0) := by
    rw [shifts_succ, h2, shift_xor, shift_xor, shift_split (c >>> 16), h24]
    rfl
  rw [shifts_succ, h3, shift_xor, shift_xor, shift_xor, shift_split (c >>> 24), hzero,
    UInt32.zero_xor]
  show shifts 1 (wordByte c 3) ^^^ shifts 2 (wordByte c 2) ^^^ shifts 3 (wordByte c 1) ^^^
    shifts 4 (wordByte c 0) = _
  ac_rfl

/-! ### Tables -/

/-- The table for a byte that `t` more bytes follow; the first table is `shift`. -/
def crcTable : Nat → UInt32 → UInt32
  | 0, i => shift i
  | t + 1, i =>
    let prev := crcTable t i
    (prev >>> 8) ^^^ shift (prev &&& 0xFF)

theorem crcTable_eq (t : Nat) (i : UInt32) : crcTable t i = shifts (t + 1) i := by
  induction t with
  | zero => rfl
  | succ t ih =>
    rw [crcTable, ih, shifts_succ (t + 1), shift_split (shifts (t + 1) i)]

/-- The word of four bytes, least significant first. -/
def leWord (b0 b1 b2 b3 : UInt8) : UInt32 :=
  b0.toUInt32 ||| b1.toUInt32 <<< 8 ||| b2.toUInt32 <<< 16 ||| b3.toUInt32 <<< 24

theorem toNat_shiftLeft_byte (b : UInt8) {k : UInt32} (hk : k.toNat ≤ 24) :
    (b.toUInt32 <<< k).toNat = b.toNat <<< k.toNat := by
  have hlt : b.toNat * 2 ^ k.toNat < 2 ^ 8 * 2 ^ 24 :=
    Nat.mul_lt_mul_of_lt_of_le b.toNat_lt (Nat.pow_le_pow_right (by decide) hk) (by decide)
  have hmod : k.toNat % 32 = k.toNat := by omega
  rw [UInt32.toNat_shiftLeft, UInt8.toNat_toUInt32, hmod, Nat.shiftLeft_eq,
    Nat.mod_eq_of_lt (by omega)]

theorem toNat_leWord (b0 b1 b2 b3 : UInt8) : (leWord b0 b1 b2 b3).toNat =
    b0.toNat + 256 * b1.toNat + 65536 * b2.toNat + 16777216 * b3.toNat := by
  have h0 := b0.toNat_lt
  have h1 := b1.toNat_lt
  have h2 := b2.toNat_lt
  rw [leWord, UInt32.toNat_or, UInt32.toNat_or, UInt32.toNat_or, UInt8.toNat_toUInt32,
    toNat_shiftLeft_byte b1 (by decide), toNat_shiftLeft_byte b2 (by decide),
    toNat_shiftLeft_byte b3 (by decide)]
  show b0.toNat ||| b1.toNat <<< 8 ||| b2.toNat <<< 16 ||| b3.toNat <<< 24 = _
  rw [Nat.or_comm b0.toNat, ← Nat.shiftLeft_add_eq_or_of_lt h0, Nat.or_comm _ (b2.toNat <<< 16),
    ← Nat.shiftLeft_add_eq_or_of_lt (by rw [Nat.shiftLeft_eq]; omega),
    Nat.or_comm _ (b3.toNat <<< 24), ← Nat.shiftLeft_add_eq_or_of_lt (by
      rw [Nat.shiftLeft_eq, Nat.shiftLeft_eq]; omega)]
  omega

theorem toNat_wordByte : (wordByte c 0).toNat = c.toNat % 256 ∧
    (wordByte c 1).toNat = c.toNat / 256 % 256 ∧ (wordByte c 2).toNat = c.toNat / 65536 % 256 ∧
    (wordByte c 3).toNat = c.toNat / 16777216 % 256 := by
  have hmask (x : UInt32) : (x &&& 0xFF).toNat = x.toNat % 256 :=
    (UInt32.toNat_and x 0xFF).trans (Nat.and_two_pow_sub_one_eq_mod x.toNat 8)
  simp only [wordByte, hmask, UInt32.toNat_shiftRight, Nat.shiftRight_eq_div_pow, true_and]
  exact ⟨rfl, rfl, rfl⟩

theorem wordByte_leWord (b0 b1 b2 b3 : UInt8) :
    wordByte (leWord b0 b1 b2 b3) 0 = b0.toUInt32 ∧ wordByte (leWord b0 b1 b2 b3) 1 = b1.toUInt32 ∧
    wordByte (leWord b0 b1 b2 b3) 2 = b2.toUInt32 ∧
    wordByte (leWord b0 b1 b2 b3) 3 = b3.toUInt32 := by
  have hword := toNat_leWord b0 b1 b2 b3
  obtain ⟨e0, e1, e2, e3⟩ := toNat_wordByte (leWord b0 b1 b2 b3)
  have h0 := b0.toNat_lt
  have h1 := b1.toNat_lt
  have h2 := b2.toNat_lt
  have h3 := b3.toNat_lt
  simp only [← UInt32.toNat_inj, e0, e1, e2, e3, UInt8.toNat_toUInt32]
  omega

theorem foldl_crc32Byte_four (b0 b1 b2 b3 : UInt8) :
    [b0, b1, b2, b3].foldl crc32Byte c = shifts 4 (c ^^^ leWord b0 b1 b2 b3) := by
  obtain ⟨e0, e1, e2, e3⟩ := wordByte_leWord b0 b1 b2 b3
  rw [shifts_xor, shifts_four (leWord b0 b1 b2 b3), e0, e1, e2, e3]
  simp only [foldl_cons, foldl_nil, crc32Byte_eq, shift_xor]
  show shifts 4 c ^^^ shifts 4 b0.toUInt32 ^^^ shifts 3 b1.toUInt32 ^^^ shifts 2 b2.toUInt32 ^^^
    shifts 1 b3.toUInt32 = _
  ac_rfl

theorem crcTable_word (t : Nat) (c : UInt32) :
    crcTable (t + 3) (wordByte c 0) ^^^ crcTable (t + 2) (wordByte c 1) ^^^
      crcTable (t + 1) (wordByte c 2) ^^^ crcTable t (wordByte c 3) = shifts t (shifts 4 c) := by
  rw [shifts_four, shifts_xor, shifts_xor, shifts_xor, ← shifts_add, ← shifts_add, ← shifts_add,
    ← shifts_add]
  simp only [crcTable_eq]

/-! ### Sixteen bytes at once -/

/-- One step over the bytes `d 0` to `d 15`. -/
def crcBlock (crc : UInt32) (d : Nat → UInt8) : UInt32 :=
  let lo := crc ^^^ leWord (d 0) (d 1) (d 2) (d 3)
  let hi := leWord (d 4) (d 5) (d 6) (d 7)
  let w1 := leWord (d 8) (d 9) (d 10) (d 11)
  let w2 := leWord (d 12) (d 13) (d 14) (d 15)
  crcTable 15 (wordByte lo 0) ^^^ crcTable 14 (wordByte lo 1) ^^^
  crcTable 13 (wordByte lo 2) ^^^ crcTable 12 (wordByte lo 3) ^^^
  crcTable 11 (wordByte hi 0) ^^^ crcTable 10 (wordByte hi 1) ^^^
  crcTable 9 (wordByte hi 2) ^^^ crcTable 8 (wordByte hi 3) ^^^
  crcTable 7 (wordByte w1 0) ^^^ crcTable 6 (wordByte w1 1) ^^^
  crcTable 5 (wordByte w1 2) ^^^ crcTable 4 (wordByte w1 3) ^^^
  crcTable 3 (wordByte w2 0) ^^^ crcTable 2 (wordByte w2 1) ^^^
  crcTable 1 (wordByte w2 2) ^^^ crcTable 0 (wordByte w2 3)

theorem crcBlock_eq (crc : UInt32) (d : Nat → UInt8) :
    crcBlock crc d = ((List.range 16).map d).foldl crc32Byte crc := by
  have hfold : ((List.range 16).map d).foldl crc32Byte crc =
      [d 12, d 13, d 14, d 15].foldl crc32Byte ([d 8, d 9, d 10, d 11].foldl crc32Byte
        ([d 4, d 5, d 6, d 7].foldl crc32Byte ([d 0, d 1, d 2, d 3].foldl crc32Byte crc))) := rfl
  rw [hfold]
  simp only [foldl_crc32Byte_four, crcBlock]
  generalize crc ^^^ leWord (d 0) (d 1) (d 2) (d 3) = lo
  generalize leWord (d 4) (d 5) (d 6) (d 7) = hi
  generalize leWord (d 8) (d 9) (d 10) (d 11) = w1
  generalize leWord (d 12) (d 13) (d 14) (d 15) = w2
  -- each word is moved by the words that follow it
  have hright : shifts 4 (shifts 4 (shifts 4 (shifts 4 lo ^^^ hi) ^^^ w1) ^^^ w2) =
      shifts 12 (shifts 4 lo) ^^^ shifts 8 (shifts 4 hi) ^^^ shifts 4 (shifts 4 w1) ^^^
        shifts 4 w2 := by
    simp only [shifts_xor, ← shifts_add, Nat.reduceAdd]
  have hlast : shifts 4 w2 = shifts 0 (shifts 4 w2) := rfl
  rw [hright, hlast, ← crcTable_word, ← crcTable_word, ← crcTable_word, ← crcTable_word]
  simp only [UInt32.xor_assoc, Nat.reduceAdd]

theorem crc32Byte_table (b : UInt8) :
    crcTable 0 ((c ^^^ b.toUInt32) &&& 0xFF) ^^^ (c >>> 8) = crc32Byte c b := by
  have hbyte : (c ^^^ b.toUInt32) >>> 8 = c >>> 8 := by
    have hzero : b.toUInt32 >>> 8 = 0 := by
      have := b.toNat_lt
      apply UInt32.toNat_inj.mp
      show b.toNat >>> 8 = 0
      omega
    rw [UInt32.shiftRight_xor, hzero, UInt32.xor_zero]
  rw [crc32Byte_eq, shift_split, hbyte, UInt32.xor_comm]
  rfl

/-- Blocks of sixteen bytes, then the bytes that are left. -/
def crc32Loop : Nat → UInt32 → Bytes → UInt32
  | 0, crc, data =>
    data.foldl (fun crc b => crcTable 0 ((crc ^^^ b.toUInt32) &&& 0xFF) ^^^ (crc >>> 8)) crc
  | n + 1, crc, data => crc32Loop n (crcBlock crc fun i => data.getD i 0) (data.drop 16)

def crc32Sliced (data : Bytes) : UInt32 :=
  crc32Loop (data.length / 16) (0 ^^^ 0xFFFFFFFF) data ^^^ 0xFFFFFFFF

theorem crc32Loop_eq {n : Nat} {data : Bytes} (h : 16 * n ≤ data.length) (crc : UInt32) :
    crc32Loop n crc data = data.foldl crc32Byte crc := by
  induction n generalizing crc data with
  | zero => simp only [crc32Loop, crc32Byte_table]
  | succ n ih =>
    have hblock : ((List.range 16).map fun i => data.getD i 0) = data.take 16 := by
      apply ext_getElem
      · rw [length_map, List.length_range, length_take]
        omega
      · intro i hi hi'
        rw [length_map, List.length_range] at hi
        rw [getElem_map, getElem_range, getElem_take, getD_eq_getElem?_getD,
          getElem?_eq_getElem (by omega), Option.getD_some]
    rw [crc32Loop, ih (by rw [length_drop]; omega), crcBlock_eq, hblock, ← foldl_append,
      take_append_drop]

/-- **The tables compute the CRC-32.** -/
theorem crc32Sliced_eq (data : Bytes) : crc32Sliced data = crc32 data := by
  rw [crc32Sliced, crc32Loop_eq (by omega), UInt32.zero_xor, crc32]

end Dmi
