import CoinScript.Digest
import CoinScript.Fault

/-!
Reading from a byte string.

A cursor is what is left of the bytes and how many have gone before. A read gives a value and
the cursor behind it, or a fault; so a read that fails leaves its caller where it was.
-/

namespace CoinScript

/-- A place in a byte string. -/
structure Cursor where
  offset : Nat
  rest : Bytes
  deriving DecidableEq

namespace Cursor

def ofBytes (b : Bytes) : Cursor := ⟨0, b⟩

def remaining (c : Cursor) : Nat := c.rest.length

def isEmpty (c : Cursor) : Bool := c.rest.isEmpty

def advance (c : Cursor) (n : Nat) : Cursor := ⟨c.offset + n, c.rest.drop n⟩

end Cursor

/-- A way to read a value from a cursor on. -/
abbrev Read := StateT Cursor (Except Fault)

namespace Read

def bytes (n : Nat) : Read Bytes := fun c =>
  let b := c.rest.take n
  if b.length < n then .error (.truncated c.offset n c.remaining) else .ok (b, c.advance n)

def uint (width : Nat) : Read Nat := do
  return Bytes.toNatLE (← bytes width)

/-- A little-endian integer of `width` bytes in two's complement. -/
def int (width : Nat) : Read Int := do
  return Bytes.toIntLE (← bytes width)

/-- The next thirty-two bytes as a digest. -/
def hash : Read Hash256 := fun c =>
  match Hash256.ofBytes? (c.rest.take 32) with
  | some h => .ok (h, c.advance 32)
  | none => .error (.truncated c.offset 32 c.remaining)

end Read

end CoinScript
