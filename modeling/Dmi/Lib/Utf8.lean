import Dmi.Lib.Struct

/-!
# UTF-8

The bytes of a string, and what a reader of the bytes sees at the beginning of each character:
`utf8EncodeChar_cases` has one case for each length of an encoded character, with its bytes by
their values.
-/

namespace Dmi

/-- `value.encode("utf-8")`. -/
def utf8 (s : String) : Bytes := s.toList.flatMap String.utf8EncodeChar

theorem utf8_injective : Function.Injective utf8 := by
  intro s t h
  have h' : s.toList.utf8Encode = t.toList.utf8Encode := congrArg List.toByteArray h
  rw [String.utf8Encode_toList, String.utf8Encode_toList] at h'
  exact String.toByteArray_inj.mp h'

theorem length_utf8 (s : String) : (utf8 s).length = s.utf8ByteSize := by
  have h : s.toList.utf8Encode = s.toByteArray := String.utf8Encode_toList
  rw [← String.size_toByteArray, ← h, List.utf8Encode, List.size_toByteArray]
  rfl

theorem utf8_eq_nil {s : String} : utf8 s = [] ↔ s = "" := by
  constructor
  · intro h
    exact utf8_injective (h.trans rfl)
  · rintro rfl
    rfl

/-- The bytes of a character: itself, or a leading byte that tells the length and then bytes
of six bits each. -/
theorem utf8EncodeChar_cases (c : Char) :
    (c.toNat < 0x80 ∧ String.utf8EncodeChar c = [UInt8.ofNat c.toNat]) ∨
    (∃ a < 32, ∃ b < 64, c.toNat = a * 64 + b ∧ 0x80 ≤ c.toNat ∧
      String.utf8EncodeChar c = [UInt8.ofNat (0xC0 + a), UInt8.ofNat (0x80 + b)]) ∨
    (∃ a < 16, ∃ b < 64, ∃ d < 64, c.toNat = (a * 64 + b) * 64 + d ∧ 0x800 ≤ c.toNat ∧
      String.utf8EncodeChar c =
        [UInt8.ofNat (0xE0 + a), UInt8.ofNat (0x80 + b), UInt8.ofNat (0x80 + d)]) ∨
    (∃ a < 8, ∃ b < 64, ∃ d < 64, ∃ e < 64, c.toNat = ((a * 64 + b) * 64 + d) * 64 + e ∧
      0x10000 ≤ c.toNat ∧ c.toNat < 0x110000 ∧
      String.utf8EncodeChar c = [UInt8.ofNat (0xF0 + a), UInt8.ofNat (0x80 + b),
        UInt8.ofNat (0x80 + d), UInt8.ofNat (0x80 + e)]) := by
  have hmax : c.toNat < 0x110000 := by
    have h := c.valid
    simp only [UInt32.isValidChar, Nat.isValidChar] at h
    show c.val.toNat < _
    omega
  have hval : c.val.toNat = c.toNat := rfl
  simp only [String.utf8EncodeChar, hval]
  generalize c.toNat = n at hmax
  by_cases h1 : n ≤ 127
  · exact .inl ⟨by omega, if_pos h1⟩
  rw [if_neg h1]
  by_cases h2 : n ≤ 2047
  · refine .inr (.inl ⟨n / 64, by omega, n % 64, by omega, by omega, by omega, ?_⟩)
    rw [if_pos h2, Nat.mod_eq_of_lt (by omega : n / 64 < 32), Nat.add_comm, Nat.add_comm (n % 64)]
  rw [if_neg h2]
  by_cases h3 : n ≤ 65535
  · refine .inr (.inr (.inl ⟨n / 4096, by omega, n / 64 % 64, by omega, n % 64, by omega, by omega,
      by omega, ?_⟩))
    rw [if_pos h3, Nat.mod_eq_of_lt (by omega : n / 4096 < 16), Nat.add_comm,
      Nat.add_comm (n / 64 % 64), Nat.add_comm (n % 64)]
  · refine .inr (.inr (.inr ⟨n / 262144, by omega, n / 4096 % 64, by omega, n / 64 % 64, by omega,
      n % 64, by omega, by omega, by omega, hmax, ?_⟩))
    rw [if_neg h3, Nat.mod_eq_of_lt (by omega : n / 262144 < 8), Nat.add_comm,
      Nat.add_comm (n / 4096 % 64), Nat.add_comm (n / 64 % 64), Nat.add_comm (n % 64)]

end Dmi
