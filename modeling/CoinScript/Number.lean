import CoinScript.Bytes

/-!
Script numbers: integers of any size as sign and magnitude, least significant byte first.

The top bit of the last byte is the sign, so an encoding of `k` bytes is the magnitude, plus
`2 ^ (8 * k - 1)` when the number is negative. Writing takes the fewest bytes that leave room
for the sign.
-/

namespace CoinScript.Number

/-- What the sign bit of an encoding of `size` bytes weighs. -/
def signWeight (size : Nat) : Nat :=
  Nat.pow 2 (8 * size - 1)

/-- The integer an encoding denotes. No bytes denote zero. -/
def decode (b : Bytes) : Int :=
  let n := b.toNatLE
  if n < signWeight b.length then n else -((n - signWeight b.length : Nat) : Int)

/-- The fewest bytes that hold a magnitude and a sign bit. -/
def width (magnitude : Nat) : Nat :=
  if magnitude = 0 then 0 else (magnitude.log2 + 1) / 8 + 1

/-- The shortest encoding of an integer. -/
def encode (v : Int) : Bytes :=
  let k := width v.natAbs
  Bytes.ofNatLE k (if v < 0 then v.natAbs + signWeight k else v.natAbs)

/-- The integer an encoding denotes, when it lies in the signed sixty-four bit range. -/
def decodeBounded? (b : Bytes) : Option Int :=
  let v := decode b
  if -0x8000000000000000 ≤ v ∧ v < 0x8000000000000000 then some v else none

/-- Truth of a stack item: some byte is not zero, a lone sign bit at the end not counting. -/
def truthy : Bytes → Bool
  | [] => false
  | [b] => b != 0 && b != 0x80
  | b :: bs => b != 0 || truthy bs

/-- A truth value as a stack item: one, or no bytes. -/
def ofBool (b : Bool) : Bytes :=
  if b then [1] else []

end CoinScript.Number
