import CoinScript.Digest
import CoinScript.Fault
import CoinScript.Number
import CoinScript.Opcode

/-!
Scripts as bytes, and the instructions the bytes stand for.

A script is kept as its bytes, so that malformed ones survive. Reading gives instructions that
tile the bytes, or the first truncated push.
-/

namespace CoinScript

/-- A script, well formed or not. -/
structure Script where
  bytes : Bytes
  deriving DecidableEq

/-- One opcode, with the bytes it pushes if it is a push with data. -/
structure Instruction where
  opcode : Opcode
  data? : Option Bytes
  /-- Where the opcode stands in its script. -/
  offset : Nat
  deriving DecidableEq

namespace Instruction

def encodePush (opcode : Opcode) (data : Bytes) : Bytes :=
  opcode :: Bytes.ofNatLE opcode.lengthWidth data.length ++ data

def encode (i : Instruction) : Bytes :=
  match i.data? with
  | none => [i.opcode]
  | some data => encodePush i.opcode data

def size (i : Instruction) : Nat :=
  match i.data? with
  | none => 1
  | some data => 1 + i.opcode.lengthWidth + data.length

/-- The data of a push of `size` bytes whose opcode stands at `offset`. -/
def readData (opcode : Opcode) (offset size : Nat) (rest : Bytes) : Except Fault Instruction :=
  let data := rest.take size
  if data.length < size then .error (.parse (.truncatedPush size offset rest.length))
  else .ok ⟨opcode, some data, offset⟩

/-- The instruction whose opcode stands at `offset` and is followed by `rest`. -/
def read (offset : Nat) (opcode : Opcode) (rest : Bytes) : Except Fault Instruction :=
  if opcode ≤ Opcode.pushDirectMax then readData opcode offset opcode.toNat rest
  else if opcode.isPushData then
    let width := opcode.lengthWidth
    let digits := rest.take width
    if digits.length < width then .error (.parse (.truncatedLength offset))
    else readData opcode offset (Bytes.toNatLE digits) (rest.drop width)
  else .ok ⟨opcode, none, offset⟩

end Instruction

namespace Script

def empty : Script := ⟨[]⟩

/-- The instructions of `bytes`, of which the first `skip` belong to an instruction read
before and the first stands at `offset`. -/
def instructionsFrom : (skip offset : Nat) → Bytes → Except Fault (List Instruction)
  | _, _, [] => .ok []
  | skip + 1, offset, _ :: rest => instructionsFrom skip (offset + 1) rest
  | 0, offset, opcode :: rest => do
    let i ← Instruction.read offset opcode rest
    let is ← instructionsFrom (i.size - 1) (offset + 1) rest
    return i :: is

/-- The instructions of a script, or its first fault. -/
def instructions (s : Script) : Except Fault (List Instruction) :=
  instructionsFrom 0 0 s.bytes

/-- The script with these bytes, when they hold whole instructions. -/
def ofBytes (b : Bytes) : Except Fault Script := do
  let _ ← instructions ⟨b⟩
  return ⟨b⟩

def append (s t : Script) : Script := ⟨s.bytes ++ t.bytes⟩

/-! ### Building -/

def pushOpcode (s : Script) (opcode : Opcode) : Script :=
  ⟨s.bytes ++ [opcode]⟩

/-- Appends a push with the shortest length. -/
def pushData (s : Script) (data : Bytes) : Script :=
  ⟨s.bytes ++ Instruction.encodePush (Opcode.canonicalPush data.length) data⟩

def pushInt (s : Script) (v : Int) : Script :=
  s.pushData (Number.encode v)

/-- Appends a push with a chosen opcode, which must be one with a length behind it. -/
def pushDataWith (s : Script) (opcode : Opcode) (data : Bytes) : Except Fault Script :=
  if !opcode.isPushData then .error (.parse (.notPushData opcode))
  else if Nat.pow 256 opcode.lengthWidth ≤ data.length then
    .error (.parse (.pushTooLong data.length opcode))
  else .ok ⟨s.bytes ++ Instruction.encodePush opcode data⟩

/-- The script that locks an output to the hash of another script. -/
def payToScriptHash (redeem : Script) : Script :=
  ((empty.pushOpcode Opcode.hash160).pushData (hash160 redeem.bytes)).pushOpcode Opcode.equal

/-! ### Tests -/

/-- Whether the script is well formed and all its instructions are pushes. -/
def isPushOnly (s : Script) : Bool :=
  match s.instructions with
  | .ok is => is.all fun i => i.opcode ≤ Opcode.op16
  | .error _ => false

/-- Whether the script has the bytes of a script hash lock. -/
def isPayToScriptHash (s : Script) : Bool :=
  s.bytes.length == 23 && s.bytes[0]? == some Opcode.hash160 && s.bytes[1]? == some 0x14
    && s.bytes[22]? == some Opcode.equal

/-! ### Removing -/

/-- The bytes of the instructions that pass a test, each from where it starts to where it ends. -/
def filter (keep : Instruction → Bool) (s : Script) : Except Fault Script := do
  let is ← s.instructions
  return ⟨(is.filter keep).flatMap fun i => (s.bytes.drop i.offset).take i.size⟩

/-- Without the instructions of an opcode that carry no data. -/
def removeOpcode (s : Script) (opcode : Opcode) : Except Fault Script :=
  s.filter fun i => i.opcode != opcode || i.data?.isSome

/-- Without the shortest pushes of some data. -/
def removePush (s : Script) (data : Bytes) : Except Fault Script :=
  s.filter fun i => !(i.opcode == Opcode.canonicalPush data.length && i.data? == some data)

/-- What follows the instruction at an offset. -/
def subscriptAfter (s : Script) (offset : Nat) : Except Fault Script := do
  let is ← s.instructions
  match is.find? (·.offset = offset) with
  | some i => return ⟨s.bytes.drop (i.offset + i.size)⟩
  | none => throw (.parse (.noInstruction offset))

end Script

end CoinScript
