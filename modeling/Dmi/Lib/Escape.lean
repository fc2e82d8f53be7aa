import Dmi.Lib.Struct

/-!
# Backslash escapes

A table pairs bytes with letters.  `escape` writes a byte of the table as a backslash and its
letter, and every other byte as itself; `unescape` takes a letter back to its byte.
-/

namespace Dmi.Escape

open List

def backslash : UInt8 := 0x5C

variable {table : List (UInt8 × UInt8)}

def escape (table : List (UInt8 × UInt8)) (c : UInt8) : Bytes :=
  (table.find? (·.1 = c)).elim [c] fun p => [backslash, p.2]

/-- What a letter stands for; a letter of no escape stands for itself. -/
def unescape (table : List (UInt8 × UInt8)) (letter : UInt8) : UInt8 :=
  (table.find? (·.2 = letter)).elim letter Prod.fst

/-- A byte is written as itself, and then it is none of the table's, or as the escape that stands
for it. -/
theorem escape_cases (table : List (UInt8 × UInt8)) (c : UInt8) :
    (escape table c = [c] ∧ ∀ p ∈ table, c ≠ p.1) ∨
      ∃ p ∈ table, p.1 = c ∧ escape table c = [backslash, p.2] := by
  unfold escape
  cases h : table.find? (·.1 = c) with
  | none =>
    refine .inl ⟨rfl, fun p hp hc => ?_⟩
    exact absurd (decide_eq_true hc.symm) (find?_eq_none.mp h p hp)
  | some p => exact .inr ⟨p, mem_of_find?_eq_some h, by simpa using find?_some h, rfl⟩

end Dmi.Escape
