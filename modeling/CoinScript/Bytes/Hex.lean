import CoinScript.Bytes

/-!
Hexadecimal text of byte strings.

Writing gives two lower-case digits a byte. Reading takes digits of either case and names
the first fault: an odd number of digits, or else the first byte that is no digit.
-/

namespace CoinScript.Hex

/-- The lower-case digit of a number below sixteen. -/
def digit (n : Nat) : Char :=
  if n < 10 then Char.ofNat (48 + n) else Char.ofNat (87 + n)

def encodeByte (b : UInt8) : List Char :=
  [digit (b.toNat / 16), digit (b.toNat % 16)]

def encodeChars (b : Bytes) : List Char :=
  b.flatMap encodeByte

def encode (b : Bytes) : String :=
  String.ofList (encodeChars b)

/-- The value of a digit, given as its ASCII byte. -/
def digitValue? (c : UInt8) : Option Nat :=
  let n := c.toNat
  if 48 ≤ n ∧ n ≤ 57 then some (n - 48)
  else if 65 ≤ n ∧ n ≤ 70 then some (n - 55)
  else if 97 ≤ n ∧ n ≤ 102 then some (n - 87)
  else none

/-- Why a text is not hexadecimal. Positions count bytes. -/
inductive Fault where
  | oddLength
  | badDigit (byte : UInt8) (position : Nat)
  deriving DecidableEq

def decodeDigit (c : UInt8) (position : Nat) : Except Fault Nat :=
  match digitValue? c with
  | some n => .ok n
  | none => .error (.badDigit c position)

/-- Reads digits in pairs, the first of them standing at `position`. -/
def decodePairs (position : Nat) : Bytes → Except Fault Bytes
  | [] => .ok []
  | [_] => .error .oddLength
  | hi :: lo :: rest => do
    let h ← decodeDigit hi position
    let l ← decodeDigit lo (position + 1)
    let bs ← decodePairs (position + 2) rest
    return UInt8.ofNat (16 * h + l) :: bs

def decode (digits : Bytes) : Except Fault Bytes :=
  if digits.length % 2 = 1 then .error .oddLength else decodePairs 0 digits

/-- Text to bytes, when every character is a digit and their number is even. -/
def decode? (text : String) : Option Bytes :=
  (decode text.toUTF8.data.toList).toOption

/-- A byte in single quotes, as the character with that code. Control characters, the quote
and the backslash are written as escapes. -/
def quoteByte (b : UInt8) : String :=
  let n := b.toNat
  let body :=
    if n = 0 then "\\0"
    else if n = 9 then "\\t"
    else if n = 10 then "\\n"
    else if n = 13 then "\\r"
    else if n = 39 then "\\'"
    else if n = 92 then "\\\\"
    else if n < 32 ∨ (127 ≤ n ∧ n ≤ 160) ∨ n = 173 then
      "\\u\x7b" ++ String.ofList (Nat.toDigits 16 n) ++ "\x7d"
    else String.singleton (Char.ofNat n)
  "'" ++ body ++ "'"

def Fault.message : Fault → String
  | .oddLength => "Odd number of digits"
  | .badDigit byte position => s!"Invalid character {quoteByte byte} at position {position}"

end CoinScript.Hex
