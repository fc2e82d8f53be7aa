import Dmi.Lib.Json.Value
import Dmi.Lib.Struct

/-!
# The JSON decoder

`loads` is Python's `json.loads` on `bytes`: guess the encoding (`detectEncoding`),
decode with the `surrogatepass` handler, and scan one value with nothing but
whitespace after it.  The scanner follows the grammar of the C accelerator:
`NaN`, `Infinity` and `-Infinity` are floats, a control character in a string is an
error, a high surrogate escape takes the low one after it, and an integer literal of
more than 4300 digits is a `ValueError`.

The scanner runs on fuel.  Every call consumes a character, so the length of the
text is enough; `loads` passes one more.
-/

namespace Dmi.Json

/-- What `json.loads` raises: `UnicodeDecodeError`, `JSONDecodeError`, or the
`ValueError` of an integer literal beyond the digit limit. -/
inductive LoadError where
  | unicode
  | malformed
  | digits
  deriving DecidableEq, Repr

/-! ### Encodings -/

inductive Encoding where
  | utf8 | utf8Sig | utf16 | utf16be | utf16le | utf32 | utf32be | utf32le
  deriving DecidableEq, Repr

/-- `json.detect_encoding`: the byte order marks, then the pattern of zero bytes. -/
def detectEncoding (b : Bytes) : Encoding :=
  if [0x00, 0x00, 0xFE, 0xFF] <+: b ∨ [0xFF, 0xFE, 0x00, 0x00] <+: b then .utf32
  else if [0xFE, 0xFF] <+: b ∨ [0xFF, 0xFE] <+: b then .utf16
  else if [0xEF, 0xBB, 0xBF] <+: b then .utf8Sig
  else match b with
    | b0 :: b1 :: b2 :: b3 :: _ =>
      if b0 = 0 then (if b1 = 0 then .utf32be else .utf16be)
      else if b1 = 0 then (if b2 = 0 ∧ b3 = 0 then .utf32le else .utf16le)
      else .utf8
    | [b0, b1] => if b0 = 0 then .utf16be else if b1 = 0 then .utf16le else .utf8
    | _ => .utf8

/-- A continuation byte's six bits. -/
def continuation (b : UInt8) : Option Nat :=
  if 0x80 ≤ b.toNat ∧ b.toNat < 0xC0 then some (b.toNat - 0x80) else none

/-- `bytes.decode("utf-8", "surrogatepass")`. -/
def decodeUtf8 : Bytes → Option Str
  | [] => some []
  | a :: rest =>
    if a.toNat < 0x80 then (decodeUtf8 rest).map (a.toNat :: ·)
    else match rest with
      | [] => none
      | b :: rest =>
        match continuation b with
        | none => none
        | some y =>
          if 0xC2 ≤ a.toNat ∧ a.toNat < 0xE0 then
            (decodeUtf8 rest).map (((a.toNat - 0xC0) * 64 + y) :: ·)
          else match rest with
            | [] => none
            | c :: rest =>
              match continuation c with
              | none => none
              | some z =>
                if 0xE0 ≤ a.toNat ∧ a.toNat < 0xF0 then
                  let n := (a.toNat - 0xE0) * 4096 + y * 64 + z
                  if n < 0x800 then none else (decodeUtf8 rest).map (n :: ·)
                else match rest with
                  | [] => none
                  | d :: rest =>
                    match continuation d with
                    | none => none
                    | some w =>
                      if 0xF0 ≤ a.toNat ∧ a.toNat < 0xF5 then
                        let n := (a.toNat - 0xF0) * 262144 + y * 4096 + z * 64 + w
                        if n < 0x10000 ∨ 0x110000 ≤ n then none
                        else (decodeUtf8 rest).map (n :: ·)
                      else none

/-- The code units of a 16-bit encoding; `none` on a stray byte. -/
def units16 (bigEndian : Bool) : Bytes → Option (List Nat)
  | [] => some []
  | [_] => none
  | a :: b :: rest =>
    let n := if bigEndian then a.toNat * 256 + b.toNat else b.toNat * 256 + a.toNat
    (units16 bigEndian rest).map (n :: ·)

/-- Surrogate pairs combined; with `surrogatepass` a lone one stays. -/
def combinePairs : List Nat → Str
  | [] => []
  | [u] => [u]
  | u :: v :: rest =>
    if 0xD800 ≤ u ∧ u < 0xDC00 ∧ 0xDC00 ≤ v ∧ v < 0xE000 then
      (0x10000 + (u - 0xD800) * 1024 + (v - 0xDC00)) :: combinePairs rest
    else u :: combinePairs (v :: rest)

/-- The code points of a 32-bit encoding. -/
def units32 (bigEndian : Bool) : Bytes → Option Str
  | [] => some []
  | a :: b :: c :: d :: rest =>
    let n := if bigEndian then
        ((a.toNat * 256 + b.toNat) * 256 + c.toNat) * 256 + d.toNat
      else ((d.toNat * 256 + c.toNat) * 256 + b.toNat) * 256 + a.toNat
    if n < 0x110000 then (units32 bigEndian rest).map (n :: ·) else none
  | _ => none

/-- `bytes.decode(encoding, "surrogatepass")`; the encodings without a byte order
in their name take it from the byte order mark that made `detectEncoding` choose
them. -/
def decode (enc : Encoding) (b : Bytes) : Option Str :=
  match enc with
  | .utf8 => decodeUtf8 b
  | .utf8Sig => decodeUtf8 (b.drop 3)
  | .utf16 => (units16 (b.head? = some 0xFE) (b.drop 2)).map combinePairs
  | .utf16be => (units16 true b).map combinePairs
  | .utf16le => (units16 false b).map combinePairs
  | .utf32 => units32 (b.head? = some 0x00) (b.drop 4)
  | .utf32be => units32 true b
  | .utf32le => units32 false b

/-! ### Strings and numbers -/

def skipWs : Str → Str
  | [] => []
  | c :: r =>
    if c = ' '.toNat ∨ c = '\t'.toNat ∨ c = '\n'.toNat ∨ c = '\r'.toNat then skipWs r
    else c :: r

def hexValue (c : Nat) : Option Nat :=
  if '0'.toNat ≤ c ∧ c ≤ '9'.toNat then some (c - '0'.toNat)
  else if 'a'.toNat ≤ c ∧ c ≤ 'f'.toNat then some (c - 'a'.toNat + 10)
  else if 'A'.toNat ≤ c ∧ c ≤ 'F'.toNat then some (c - 'A'.toNat + 10)
  else none

def hexValue4 (a b c d : Nat) : Option Nat := do
  let w ← hexValue a
  let x ← hexValue b
  let y ← hexValue c
  let z ← hexValue d
  return ((w * 16 + x) * 16 + y) * 16 + z

/-- The character a one-letter escape stands for. -/
def shortUnescape (e : Nat) : Option Nat :=
  if e = '"'.toNat then some '"'.toNat
  else if e = '\\'.toNat then some '\\'.toNat
  else if e = '/'.toNat then some '/'.toNat
  else if e = 'b'.toNat then some 8
  else if e = 'f'.toNat then some 12
  else if e = 'n'.toNat then some '\n'.toNat
  else if e = 'r'.toNat then some '\r'.toNat
  else if e = 't'.toNat then some '\t'.toNat
  else none

/-- The code point of a surrogate pair. -/
def pairValue (high low : Nat) : Nat := 0x10000 + (high - 0xD800) * 1024 + (low - 0xDC00)

/-- A character of a string literal: as it stands, or the code unit of a `\u` escape. -/
inductive Item where
  | plain (c : Nat)
  | escaped (u : Nat)
  deriving DecidableEq, Repr

/-- The body of a string literal up to its closing quote, and what follows. -/
def scanItems : Str → Except LoadError (List Item × Str)
  | [] => .error .malformed
  | c :: r =>
    if c = '"'.toNat then .ok ([], r)
    else if c < 0x20 then .error .malformed
    else if c ≠ '\\'.toNat then (scanItems r).map fun p => (.plain c :: p.1, p.2)
    else match r with
      | [] => .error .malformed
      | e :: r =>
        if e ≠ 'u'.toNat then
          match shortUnescape e with
          | none => .error .malformed
          | some x => (scanItems r).map fun p => (.plain x :: p.1, p.2)
        else match r with
          | w :: x :: y :: z :: r =>
            match hexValue4 w x y z with
            | none => .error .malformed
            | some u => (scanItems r).map fun p => (.escaped u :: p.1, p.2)
          | _ => .error .malformed

/-- The text of a literal's items: the escape of a high surrogate takes the escape
of a low one directly behind it, and a lone surrogate stays. -/
def joinItems : List Item → Str
  | [] => []
  | .plain c :: r => c :: joinItems r
  | .escaped u :: .escaped v :: r =>
    if 0xD800 ≤ u ∧ u < 0xDC00 ∧ 0xDC00 ≤ v ∧ v < 0xE000 then pairValue u v :: joinItems r
    else u :: joinItems (.escaped v :: r)
  | .escaped u :: r => u :: joinItems r

def scanString (s : Str) : Except LoadError (Str × Str) :=
  (scanItems s).map fun p => (joinItems p.1, p.2)

def isDigit (c : Nat) : Bool := '0'.toNat ≤ c && c ≤ '9'.toNat

/-- The decimal digits at the head of a text, and what follows. -/
def scanDigits : Str → Str × Str
  | [] => ([], [])
  | c :: r => if isDigit c then (c :: (scanDigits r).1, (scanDigits r).2) else ([], c :: r)

/-- The number that a list of decimal digits denotes. -/
def digitsValue (ds : Str) : Nat := ds.foldl (fun n d => n * 10 + (d - '0'.toNat)) 0

/-- `sys.get_int_max_str_digits()`. -/
def maxStrDigits : Nat := 4300

/-- `(\.\d+)?`. -/
def scanFraction : Str → Str × Str
  | c :: r =>
    if c = '.'.toNat ∧ (scanDigits r).1 ≠ [] then (c :: (scanDigits r).1, (scanDigits r).2)
    else ([], c :: r)
  | [] => ([], [])

/-- `([eE][-+]?\d+)?`. -/
def scanExponent : Str → Str × Str
  | c :: r =>
    if c = 'e'.toNat ∨ c = 'E'.toNat then
      match r with
      | d :: r' =>
        if (d = '+'.toNat ∨ d = '-'.toNat) ∧ (scanDigits r').1 ≠ [] then
          (c :: d :: (scanDigits r').1, (scanDigits r').2)
        else if (scanDigits r).1 ≠ [] then (c :: (scanDigits r).1, (scanDigits r).2)
        else ([], c :: r)
      | [] => ([], c :: r)
    else ([], c :: r)
  | [] => ([], [])

/-- `0|[1-9]\d*`. -/
def scanWhole : Str → Option (Str × Str)
  | c :: r =>
    if c = '0'.toNat then some ([c], r)
    else if isDigit c then some (c :: (scanDigits r).1, (scanDigits r).2)
    else none
  | [] => none

/-- The number literal behind an optional sign. -/
def scanNumber (negative : Bool) (s : Str) : Except LoadError (Value × Str) :=
  match scanWhole s with
  | none => .error .malformed
  | some (whole, r) =>
    let (fraction, r) := scanFraction r
    let (exponent, r) := scanExponent r
    if fraction = [] ∧ exponent = [] then
      if whole.length ≤ maxStrDigits then
        .ok (.int (if negative then -(digitsValue whole : Int) else digitsValue whole), r)
      else .error .digits
    else
      .ok (.float ((if negative then ['-'.toNat] else []) ++ whole ++ fraction ++ exponent), r)

/-! ### Values -/

/-- A keyword at the head of a text. -/
def keyword (word : String) (v : Value) (s : Str) : Except LoadError (Value × Str) :=
  if cps word <+: s then .ok (v, s.drop word.length) else .error .malformed

mutual
/-- One value at the head of a text, and what follows. -/
def scanValue : Nat → Str → Except LoadError (Value × Str)
  | 0, _ => .error .malformed
  | _, [] => .error .malformed
  | n + 1, c :: r =>
    if c = '"'.toNat then (scanString r).map fun p => (.str p.1, p.2)
    else if c = '['.toNat then
      match skipWs r with
      | [] => .error .malformed
      | d :: r' =>
        if d = ']'.toNat then .ok (.arr [], r')
        else (scanElems n (d :: r')).map fun p => (.arr p.1, p.2)
    else if c = '\x7b'.toNat then
      match skipWs r with
      | [] => .error .malformed
      | d :: r' =>
        if d = '\x7d'.toNat then .ok (.obj [], r')
        else (scanMembers n (d :: r')).map fun p => (.obj p.1, p.2)
    else if c = 'n'.toNat then keyword "null" .null (c :: r)
    else if c = 't'.toNat then keyword "true" (.bool true) (c :: r)
    else if c = 'f'.toNat then keyword "false" (.bool false) (c :: r)
    else if c = 'N'.toNat then keyword "NaN" (.float (cps "NaN")) (c :: r)
    else if c = 'I'.toNat then keyword "Infinity" (.float (cps "Infinity")) (c :: r)
    else if c = '-'.toNat then
      if cps "Infinity" <+: r then .ok (.float (cps "-Infinity"), r.drop 8)
      else scanNumber true r
    else scanNumber false (c :: r)

/-- The elements of an array up to its bracket, at least one. -/
def scanElems : Nat → Str → Except LoadError (List Value × Str)
  | 0, _ => .error .malformed
  | n + 1, s => do
    let (v, r) ← scanValue n s
    match skipWs r with
    | [] => .error .malformed
    | d :: r =>
      if d = ']'.toNat then .ok ([v], r)
      else if d = ','.toNat then
        let (vs, r) ← scanElems n (skipWs r)
        .ok (v :: vs, r)
      else .error .malformed

/-- The members of an object up to its brace, at least one. -/
def scanMembers : Nat → Str → Except LoadError (List (Str × Value) × Str)
  | 0, _ => .error .malformed
  | _, [] => .error .malformed
  | n + 1, q :: s =>
    if q ≠ '"'.toNat then .error .malformed
    else do
      let (k, r) ← scanString s
      match skipWs r with
      | [] => .error .malformed
      | d :: r =>
        if d ≠ ':'.toNat then .error .malformed
        else
          let (v, r) ← scanValue n (skipWs r)
          match skipWs r with
          | [] => .error .malformed
          | d :: r =>
            if d = '\x7d'.toNat then .ok ([(k, v)], r)
            else if d = ','.toNat then
              let (kvs, r) ← scanMembers n (skipWs r)
              .ok ((k, v) :: kvs, r)
            else .error .malformed
end

/-- `JSONDecoder().decode(text)`. -/
def loadsStr (s : Str) : Except LoadError Value := do
  let (v, r) ← scanValue (2 * s.length + 1) (skipWs s)
  if skipWs r = [] then .ok v else .error .malformed

/-- `json.loads(data)` for `bytes`. -/
def loads (b : Bytes) : Except LoadError Value :=
  match decode (detectEncoding b) b with
  | none => .error .unicode
  | some s => loadsStr s

/-! ### Equality with an integer -/

/-- The mantissa and decimal exponent of a float literal without its sign; `none` for
`NaN` and the infinities. -/
def floatParts (literal : Str) : Option (Nat × Int) :=
  match scanWhole (literal.dropWhile (· = '-'.toNat)) with
  | none => none
  | some (whole, r) =>
    let (fraction, r) := scanFraction r
    let digits := r.filter isDigit
    let exponent : Int := if '-'.toNat ∈ r then -(digitsValue digits : Int) else digitsValue digits
    some (digitsValue (whole ++ fraction.drop 1), exponent - (fraction.drop 1).length)

/-- Whether the double nearest to `num / den` is the integer `n`: the quotient lies
between the midpoints to the neighbouring doubles, and on a midpoint the even
mantissa wins. -/
def roundsTo (num den n : Nat) : Bool :=
  let b := n.log2
  if n = 0 then num * 2 ^ 1075 ≤ den
  else
    let below := if n = 2 ^ b then 2 ^ b else 2 ^ (b + 1)
    let even := (n * 2 ^ 53 / 2 ^ b) % 4 = 0
    let high := (n * 2 ^ 54 + 2 ^ (b + 1)) * den
    let low := (n * 2 ^ 54 - below) * den
    n < 2 ^ 1024 && n * 2 ^ 52 % 2 ^ b = 0 &&
      (if even then num * 2 ^ 54 ≤ high && low ≤ num * 2 ^ 54
        else num * 2 ^ 54 < high && low < num * 2 ^ 54)

/-- Python's `value == n` for a non-negative `int`: a `bool` is an integer, and a float
equals the integer it denotes. -/
def eqNat : Value → Nat → Bool
  | .int k, n => k = n
  | .bool b, n => n = b.toNat
  | .float l, n =>
    match floatParts l with
    | none => false
    | some (m, e) =>
      (n = 0 || l.head? ≠ some '-'.toNat) && roundsTo (m * 10 ^ e.toNat) (10 ^ (-e).toNat) n
  | _, _ => false

end Dmi.Json
