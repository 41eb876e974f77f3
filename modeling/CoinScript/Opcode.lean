import CoinScript.Bytes

/-!
Opcode values.

An opcode is one byte. Those up to `push4` carry data, those up to `op16` push something, and
those above count towards the operation limit.
-/

namespace CoinScript

/-- The byte that an instruction starts with. -/
abbrev Opcode := UInt8

namespace Opcode

def push0 : Opcode := 0x00

/-- The largest opcode that is itself the number of bytes it pushes. -/
def pushDirectMax : Opcode := 0x4b

/-- Pushes data behind a length of one byte. -/
def push1 : Opcode := 0x4c

def push2 : Opcode := 0x4d

def push4 : Opcode := 0x4e

def negate1 : Opcode := 0x4f
/-- Neither a push nor anything else. -/
def reserved : Opcode := 0x50
def op1 : Opcode := 0x51
def op16 : Opcode := 0x60
def opIf : Opcode := 0x63
def verIf : Opcode := 0x65
def verNotIf : Opcode := 0x66
def endIf : Opcode := 0x68
def equal : Opcode := 0x87
def hash160 : Opcode := 0xa9
def codeSeparator : Opcode := 0xab
def checkLockTimeVerify : Opcode := 0xb1
def checkSequenceVerify : Opcode := 0xb2

def all : List Opcode :=
  (List.range 256).map UInt8.ofNat

/-- Opcodes whose only effect is a push. -/
def isPush (op : Opcode) : Bool :=
  op ≤ op16 && op != reserved

/-- Opcodes that push a number and that text never names without their `OP_`. -/
def isNumericPush (op : Opcode) : Bool :=
  op == push0 || op == negate1 || (op1 ≤ op && op ≤ op16)

def isPushData (op : Opcode) : Bool :=
  op == push1 || op == push2 || op == push4

/-- Opcodes that run in skipped branches too. -/
def isConditional (op : Opcode) : Bool :=
  opIf ≤ op && op ≤ endIf

/-- Number of length bytes behind an opcode. -/
def lengthWidth (op : Opcode) : Nat :=
  if op = push1 then 1 else if op = push2 then 2 else if op = push4 then 4 else 0

/-- The opcode that pushes so many bytes with the shortest length. -/
def canonicalPush (size : Nat) : Opcode :=
  if size ≤ 75 then UInt8.ofNat size
  else if size ≤ 0xff then push1
  else if size ≤ 0xffff then push2
  else push4

end Opcode

end CoinScript
