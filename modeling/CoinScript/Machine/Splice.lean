import CoinScript.Digest
import CoinScript.Digest.Sha1
import CoinScript.Machine.Arithmetic

/-!
Opcodes on byte strings: comparison, digests, cutting and joining, and bitwise logic.
-/

namespace CoinScript

/-- The largest item that a push or a concatenation makes. -/
def maxItemSize : Nat := 520

/-- The digests that scripts can take. -/
inductive DigestOp where
  | ripemd160
  | sha1
  | sha256
  | hash160
  | hash256
  deriving DecidableEq

namespace DigestOp

def eval : DigestOp → Bytes → Bytes
  | ripemd160, b => Digest.ripemd160 b
  | sha1, b => Digest.sha1 b
  | sha256, b => Digest.sha256 b
  | hash160, b => CoinScript.hash160 b
  | hash256, b => (doubleSha256 b).bytes

def effect (op : DigestOp) (name : String) : Effect :=
  Effect.one name fun a =>
    let d := op.eval a
    (.ok s!"{name}: {Hex.encode d}", [d])

end DigestOp

/-- Operations on two bytes, bit by bit. -/
inductive BitOp where
  | and
  | or
  | xor
  deriving DecidableEq

namespace BitOp

def eval : BitOp → UInt8 → UInt8 → UInt8
  | and, x, y => x &&& y
  | or, x, y => x ||| y
  | xor, x, y => x ^^^ y

def effect (op : BitOp) (name : String) : Effect :=
  Effect.two name fun b a =>
    if a.length = b.length then Reply.item name (List.zipWith op.eval a b)
    else Reply.stackFault (.sizesDiffer name a.length b.length) []

end BitOp

namespace Effect

def equal (name : String) (verify : Bool) : Effect :=
  two name fun b a =>
    let sign := if a = b then "==" else "!="
    Reply.verdict name verify (a == b) s!"{name}: {shownBytes a} {sign} {shownBytes b}"

def invert (name : String) : Effect :=
  one name fun a => Reply.item name (a.map (~~~ ·))

def concat (name : String) : Effect :=
  two name fun b a =>
    if maxItemSize < a.length + b.length then
      (.error (.pushSize (a.length + b.length) maxItemSize), [])
    else Reply.item name (a ++ b)

/-- Cuts `size` bytes out of an item, from `begin` on. -/
def substring (name : String) : Effect :=
  three name fun size begin data =>
    match index? size with
    | none => Reply.stackFault (.operandOutOfRange name) [size, begin, data]
    | some n =>
      match index? begin with
      | none => Reply.stackFault (.operandOutOfRange name) [begin, data]
      | some start =>
        if data.length < start + n then Reply.stackFault (.rangeExceedsOperand name) []
        else Reply.item name ((data.drop start).take n)

/-- Keeps so many bytes at one end of an item. -/
def keep (name : String) (left : Bool) : Effect :=
  two name fun size data =>
    match index? size with
    | none => Reply.stackFault (.operandOutOfRange name) [size, data]
    | some n =>
      if data.length < n then Reply.stackFault (.rangeExceedsOperand name) []
      else Reply.item name (if left then data.take n else data.drop (data.length - n))

end Effect

end CoinScript
