import CoinScript.Machine.Arithmetic
import CoinScript.Machine.Shuffle
import CoinScript.Machine.Splice
import CoinScript.Opcode

/-!
What the opcodes mean, by family.

`Builtin.ofOpcode?` gives an opcode's own effect. Pushes with data are not among them, and
opcodes without an effect of their own are unsupported.
-/

namespace CoinScript

/-- What an opcode does of its own. -/
inductive Builtin where
  /-- Pushes a small number. -/
  | number (n : Int)
  | nop
  /-- Opens a conditional on the truth of the top item, or on its opposite. -/
  | branch (negated : Bool)
  | otherwise
  | endBranch
  | verify
  | fail
  | toAltstack
  | fromAltstack
  | shuffle (op : Shuffle)
  | ifDup
  | depth
  | pick (move : Bool)
  | size
  | equal (verify : Bool)
  | unary (op : UnaryOp)
  | binary (op : BinaryOp)
  | numEqualVerify
  | within
  | shift (left : Bool)
  | digest (op : DigestOp)
  | concat
  | substring
  | keep (left : Bool)
  | invert
  | bitwise (op : BitOp)
  | codeSeparator
  | checkSig (verify : Bool)
  | checkMultisig (verify : Bool)
  deriving DecidableEq

namespace Builtin

/-- The opcodes that push the numbers from one to sixteen, with their numbers. -/
def smallNumber? (op : Nat) : Option Builtin :=
  if 0x51 ≤ op ∧ op ≤ 0x60 then some (number (op - 0x50 : Nat)) else none

def isNop (op : Nat) : Bool := op == 0x61 || (0xb0 ≤ op && op ≤ 0xb9)

/-- The opcodes that neither push a small number nor do nothing. -/
def named? : Nat → Option Builtin
  | 0x4f => some (number (-1))
  | 0x63 => some (branch false)
  | 0x64 => some (branch true)
  | 0x67 => some otherwise
  | 0x68 => some endBranch
  | 0x69 => some verify
  | 0x6a => some fail
  | 0x6b => some toAltstack
  | 0x6c => some fromAltstack
  | 0x6d => some (shuffle .drop2)
  | 0x6e => some (shuffle .dup2)
  | 0x6f => some (shuffle .dup3)
  | 0x70 => some (shuffle .over2)
  | 0x71 => some (shuffle .rot2)
  | 0x72 => some (shuffle .swap2)
  | 0x73 => some ifDup
  | 0x74 => some depth
  | 0x75 => some (shuffle .drop)
  | 0x76 => some (shuffle .dup)
  | 0x77 => some (shuffle .nip)
  | 0x78 => some (shuffle .copySecond)
  | 0x79 => some (pick false)
  | 0x7a => some (pick true)
  | 0x7b => some (shuffle .rot)
  | 0x7c => some (shuffle .swap)
  | 0x7d => some (shuffle .tuck)
  | 0x7e => some concat
  | 0x7f => some substring
  | 0x80 => some (keep true)
  | 0x81 => some (keep false)
  | 0x82 => some size
  | 0x83 => some invert
  | 0x84 => some (bitwise .and)
  | 0x85 => some (bitwise .or)
  | 0x86 => some (bitwise .xor)
  | 0x87 => some (equal false)
  | 0x88 => some (equal true)
  | 0x8b => some (unary .inc)
  | 0x8c => some (unary .dec)
  | 0x8d => some (unary .double)
  | 0x8e => some (unary .halve)
  | 0x8f => some (unary .negate)
  | 0x90 => some (unary .abs)
  | 0x91 => some (unary .isZero)
  | 0x92 => some (unary .isNonzero)
  | 0x93 => some (binary .add)
  | 0x94 => some (binary .sub)
  | 0x95 => some (binary .mul)
  | 0x96 => some (binary .div)
  | 0x97 => some (binary .mod)
  | 0x98 => some (shift true)
  | 0x99 => some (shift false)
  | 0x9a => some (binary .boolAnd)
  | 0x9b => some (binary .boolOr)
  | 0x9c => some (binary .equal)
  | 0x9d => some numEqualVerify
  | 0x9e => some (binary .notEqual)
  | 0x9f => some (binary .less)
  | 0xa0 => some (binary .greater)
  | 0xa1 => some (binary .lessOrEqual)
  | 0xa2 => some (binary .greaterOrEqual)
  | 0xa3 => some (binary .min)
  | 0xa4 => some (binary .max)
  | 0xa5 => some within
  | 0xa6 => some (digest .ripemd160)
  | 0xa7 => some (digest .sha1)
  | 0xa8 => some (digest .sha256)
  | 0xa9 => some (digest .hash160)
  | 0xaa => some (digest .hash256)
  | 0xab => some codeSeparator
  | 0xac => some (checkSig false)
  | 0xad => some (checkSig true)
  | 0xae => some (checkMultisig false)
  | 0xaf => some (checkMultisig true)
  | _ => none

/-- The effect an opcode has of its own. -/
def ofOpcode? (op : Opcode) : Option Builtin :=
  if isNop op.toNat then some nop
  else (smallNumber? op.toNat).or (named? op.toNat)

end Builtin

end CoinScript
