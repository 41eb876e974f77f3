import CoinScript.Wire.Cursor

/-!
Compact sizes: numbers below `2 ^ 64` in one, three, five or nine bytes.

The first byte is the number itself or says how many bytes follow. Only the shortest form of a
number is read.
-/

namespace CoinScript

namespace CompactSize

/-- The shortest form of a number. -/
def encode (n : Nat) : Bytes :=
  if n < 0xfd then [UInt8.ofNat n]
  else if n < 0x10000 then 0xfd :: Bytes.ofNatLE 2 n
  else if n < 0x100000000 then 0xfe :: Bytes.ofNatLE 4 n
  else 0xff :: Bytes.ofNatLE 8 n

/-- How many bytes follow a first byte, and the least number that needs so many. -/
def form (first : UInt8) : Nat × Nat :=
  if first = 0xfd then (2, 0xfd)
  else if first = 0xfe then (4, 0x10000)
  else (8, 0x100000000)

def encodeBytes (b : Bytes) : Bytes :=
  encode b.length ++ b

end CompactSize

namespace Read

/-- A number in its shortest form. -/
def compactSize : Read Nat := do
  let first ← uint 1
  if first < 0xfd then return first
  let (width, least) := CompactSize.form (UInt8.ofNat first)
  let n ← uint width
  if n < least then throw (.encoding (.notShortest n (← get).offset))
  return n

def varBytes : Read Bytes := do
  bytes (← compactSize)

end Read

end CoinScript
